/-
  Kds.Wal.RedoStart

  When redo starts early enough.  The dirty table's entry for a page is the first mention of the
  page since it last left the stream (`lookup_dirtyPages`), and the redo start is the least
  nonzero entry.  A record's own mention comes after the standing one, so a standing *record*
  never lies past it; a standing *checkpoint entry* may: its recLSN can be zero, which the start
  skips, or lie above the record.  And the least standing recLSN may be no record's position, so
  that a walk from there finds nothing.  `redoStart_covers_iff` says that this is all that can go
  wrong.
-/

import Kds.Wal.Analysis
import Mathlib.Data.List.Induction
import Mathlib.Order.Bounds.Basic

namespace Kds.Wal

open List

-- Mentions of a page

/-- How a scanned record mentions a page. -/
inductive Mention where
  | handedOff
  | logged (lsn : Nat)
  | listed (recLsn : Nat)
  deriving DecidableEq

/-- The recLSN a mention would enter the page at. -/
def Mention.recLsn : Mention → Option Nat
  | .handedOff => none
  | .logged lsn => some lsn
  | .listed recLsn => some recLsn

/-- The mention in a record's envelope. -/
def envelopeMention (page : Nat) (r : DecodedRecord) : List Mention :=
  if r.header.pageId = page ∧ page ≠ invalidPageId then
    [if r.type = .pageHandoff then .handedOff else .logged r.lsn]
  else []

/-- The mentions in a checkpoint's dirty table. -/
def listedMentions (page : Nat) (entries : List Codecs.CheckpointDirtyPage) : List Mention :=
  entries.filterMap fun p => if p.pageId.toNat = page then some (.listed p.recLsn.toNat) else none

/-- The dirty table a record carries. -/
def listedPages (r : DecodedRecord) : List Codecs.CheckpointDirtyPage :=
  if r.type = .checkpointBegin then
    match decodeCheckpointBegin r.payload with
    | .ok decoded => decoded.dirtyPages
    | .error _ => []
  else []

/-- The mentions of a page along the scan, in order. -/
def mentions (page : Nat) (records : List DecodedRecord) : List Mention :=
  records.flatMap fun r => envelopeMention page r ++ listedMentions page (listedPages r)

/-- The first mention since the page last left the stream. -/
def standing (ms : List Mention) : Option Mention :=
  (ms.reverse.takeWhile (· ≠ .handedOff)).getLast?

theorem standing_snoc (ms : List Mention) (m : Mention) :
    standing (ms ++ [m]) =
      if m = .handedOff then none else some ((standing ms).getD m) := by
  rw [standing, reverse_append, reverse_singleton, singleton_append,
    takeWhile_cons]
  by_cases h : m = .handedOff
  · rw [if_pos h, if_neg (by simp [h])]
    rfl
  · rw [if_neg h, if_pos (by simpa using h), List.getLast?_cons, standing]

variable {m : Mention}

theorem standing_append_of_mention {pre post : List Mention} (hm : m ≠ .handedOff)
    (hpost : .handedOff ∉ post) :
    standing (pre ++ m :: post) = some ((standing pre).getD m) := by
  induction post using List.reverseRecOn with
  | nil => rw [standing_snoc, if_neg hm]
  | append_singleton post m' ih =>
    obtain ⟨hpost, hm'⟩ : .handedOff ∉ post ∧ m' ≠ .handedOff := by
      simpa [eq_comm] using hpost
    rw [← cons_append, ← append_assoc, standing_snoc, if_neg hm', ih hpost,
      Option.getD_some]

variable {ms : List Mention}

theorem standing_ne_handedOff (h : standing ms = some m) :
    m ≠ .handedOff := by
  have hmem := mem_of_getLast? h
  have hkept := all_takeWhile (p := (· ≠ Mention.handedOff)) (l := ms.reverse)
  simpa using all_eq_true.mp hkept m hmem

theorem mem_of_standing (h : standing ms = some m) : m ∈ ms := by
  have hmem := mem_of_getLast? h
  exact mem_reverse.mp (takeWhile_subset _ hmem)

-- The dirty table

/-- What a mention does to a page's entry. -/
def tableStep (entry : Option Nat) (m : Mention) : Option Nat :=
  match m with
  | .handedOff => none
  | .logged lsn => some (entry.getD lsn)
  | .listed recLsn => some (entry.getD recLsn)

theorem foldl_tableStep (ms : List Mention) :
    ms.foldl tableStep none = (standing ms).bind Mention.recLsn := by
  induction ms using List.reverseRecOn with
  | nil => rfl
  | append_singleton ms m ih =>
    rw [foldl_append, ih, standing_snoc]
    cases hst : standing ms with
    | none => cases m <;> rfl
    | some m₀ =>
      have hne := standing_ne_handedOff hst
      cases m <;> cases m₀ <;> first | rfl | exact absurd rfl hne

namespace AnalysisResult

@[simp] theorem noteTxn_dirtyPages (out : AnalysisResult) (txnId : Nat) (outcome : TxnOutcome) :
    (out.noteTxn txnId outcome).dirtyPages = out.dirtyPages := by
  rw [noteTxn]
  split_ifs <;> rfl

@[simp] theorem noteUndoHead_dirtyPages (out : AnalysisResult) (txnId ptr : Nat) :
    (out.noteUndoHead txnId ptr).dirtyPages = out.dirtyPages := by
  rw [noteUndoHead]
  split_ifs <;> rfl

theorem foldl_seedTxn_dirtyPages (ts : List Codecs.CheckpointActiveTxn) (out : AnalysisResult) :
    (ts.foldl seedTxn out).dirtyPages = out.dirtyPages := by
  induction ts generalizing out with
  | nil => rfl
  | cons t ts ih =>
    rw [foldl_cons, ih, seedTxn, noteUndoHead_dirtyPages, noteTxn_dirtyPages]

theorem lookup_foldl_seedPage (ps : List Codecs.CheckpointDirtyPage) (out : AnalysisResult)
    (page : Nat) :
    (ps.foldl seedPage out).dirtyPages.lookup page =
      (listedMentions page ps).foldl tableStep (out.dirtyPages.lookup page) := by
  induction ps generalizing out with
  | nil => rfl
  | cons p ps ih =>
    have hseed : (out.seedPage p).dirtyPages =
      emplace out.dirtyPages p.pageId.toNat p.recLsn.toNat := rfl
    rw [foldl_cons, ih, hseed, lookup_emplace, listedMentions, listedMentions,
      filterMap_cons]
    by_cases hpage : page = p.pageId.toNat
    · rw [if_pos hpage, if_pos hpage.symm, hpage]
      rfl
    · rw [if_neg hpage, if_neg (Ne.symm hpage)]

theorem lookup_notePage (out : AnalysisResult) (r : DecodedRecord) (page : Nat) :
    (out.notePage r).dirtyPages.lookup page =
      (envelopeMention page r).foldl tableStep (out.dirtyPages.lookup page) := by
  rw [notePage, envelopeMention]
  by_cases hinvalid : r.header.pageId = invalidPageId
  · rw [if_pos hinvalid, if_neg fun h => h.2 (h.1.symm.trans hinvalid)]
    rfl
  · rw [if_neg hinvalid]
    show AList.lookup page (if r.type = .pageHandoff then out.dirtyPages.erase r.header.pageId
      else emplace out.dirtyPages r.header.pageId r.lsn) = _
    by_cases hpage : r.header.pageId = page
    · obtain rfl := hpage
      rw [if_pos (⟨rfl, hinvalid⟩ : _ ∧ _)]
      split_ifs with hhandoff
      · rw [AList.lookup_erase]
        rfl
      · rw [lookup_emplace, if_pos rfl]
        rfl
    · rw [if_neg (fun h => hpage h.1 : ¬ (r.header.pageId = page ∧ page ≠ invalidPageId))]
      split_ifs with hhandoff
      · rw [AList.lookup_erase_ne (Ne.symm hpage)]
        rfl
      · rw [lookup_emplace, if_neg (Ne.symm hpage)]
        rfl

end AnalysisResult

variable {r : DecodedRecord} {out out' : AnalysisResult}

theorem noteUndoWrite_dirtyPages
    (h : noteUndoWrite out r = .ok out') : out'.dirtyPages = out.dirtyPages := by
  rw [noteUndoWrite] at h
  split_ifs at h
  · obtain ⟨decoded, -, h⟩ := bind_eq_ok.mp h
    cases h
    exact AnalysisResult.noteUndoHead_dirtyPages ..
  · cases h
    rfl

theorem lookup_noteType (h : noteType out r = .ok out') (page : Nat) :
    out'.dirtyPages.lookup page =
      (listedMentions page (listedPages r)).foldl tableStep (out.dirtyPages.lookup page) := by
  rw [listedPages]
  rw [noteType] at h
  split at h
  · next htype =>
    cases h
    rw [if_neg (by simp [htype]), AnalysisResult.noteTxn_dirtyPages]
    rfl
  · next htype =>
    cases h
    rw [if_neg (by simp [htype]), AnalysisResult.noteTxn_dirtyPages]
    rfl
  · next htype =>
    obtain ⟨decoded, hdecoded, h⟩ := bind_eq_ok.mp h
    cases h
    rw [if_pos htype, hdecoded, AnalysisResult.lookup_foldl_seedPage,
      AnalysisResult.foldl_seedTxn_dirtyPages]
  · next htype =>
    cases h
    rw [if_neg htype]
    rfl

theorem lookup_visitRecord (h : visitRecord out r = .ok out') (page : Nat) :
    out'.dirtyPages.lookup page =
      (envelopeMention page r ++ listedMentions page (listedPages r)).foldl tableStep
        (out.dirtyPages.lookup page) := by
  rw [visitRecord] at h
  split_ifs at h with hphantom
  obtain ⟨mid, hmid, h⟩ := bind_eq_ok.mp h
  rw [lookup_noteType h, noteUndoWrite_dirtyPages hmid, AnalysisResult.lookup_notePage,
    AnalysisResult.noteTxn_dirtyPages, foldl_append]

variable {records : List DecodedRecord}

theorem lookup_foldlM_visitRecord (h : records.foldlM visitRecord out = .ok out') (page : Nat) :
    out'.dirtyPages.lookup page =
      (mentions page records).foldl tableStep (out.dirtyPages.lookup page) := by
  induction records generalizing out with
  | nil =>
    cases h
    rfl
  | cons r records ih =>
    rw [foldlM_cons] at h
    obtain ⟨mid, hmid, h⟩ := bind_eq_ok.mp h
    rw [ih h, lookup_visitRecord hmid, mentions, mentions, flatMap_cons, foldl_append,
      foldl_append, foldl_append]

variable {dev : LogDevice} {coreId : Nat}

variable {start : AnalysisStart} {res : AnalysisResult}

theorem analyze_eq_ok (h : analyze dev coreId start = .ok res) :
    ∃ scan out, scanLog dev coreId visitRecord start.redoStartLsn
        { scanStartLsn := start.redoStartLsn } = .ok (scan, out) ∧
      res.endLsn = scan.endLsn ∧ res.dirtyPages = out.dirtyPages ∧
      res.redoStartLsn = redoStartFrom scan.endLsn out.dirtyPages := by
  rw [analyze] at h
  obtain ⟨⟨scan, out⟩, hscan, h⟩ := bind_eq_ok.mp h
  dsimp only at h
  split_ifs at h
  cases h
  exact ⟨scan, out, hscan, rfl, rfl, rfl⟩

theorem lookup_dirtyPages (h : analyze dev coreId start = .ok res) (page : Nat) :
    res.dirtyPages.lookup page =
      (standing (mentions page (scannedRecords dev coreId start.redoStartLsn))).bind
        Mention.recLsn := by
  obtain ⟨scan, out, hscan, -, hdirty, -⟩ := analyze_eq_ok h
  rw [hdirty, lookup_foldlM_visitRecord (scanLog_spec hscan).1, ← foldl_tableStep]
  rfl

-- The redo start

theorem foldl_min_le_iff (entries : List ((_ : Nat) × Nat)) (floorLsn x : Nat) :
    entries.foldl (fun out entry => if entry.2 ≠ 0 then min out entry.2 else out) floorLsn ≤ x ↔
      floorLsn ≤ x ∨ ∃ entry ∈ entries, entry.2 ≠ 0 ∧ entry.2 ≤ x := by
  induction entries generalizing floorLsn with
  | nil => simp
  | cons entry entries ih =>
    rw [foldl_cons, ih, exists_mem_cons_iff]
    split_ifs with hzero
    · rw [min_le_iff]
      tauto
    · tauto

theorem redoStartFrom_le_iff (floorLsn : Nat) (dirtyPages : NumMap Nat) (x : Nat) :
    redoStartFrom floorLsn dirtyPages ≤ x ↔
      floorLsn ≤ x ∨ ∃ page recLsn, dirtyPages.lookup page = some recLsn ∧ 0 < recLsn ∧
        recLsn ≤ x := by
  rw [redoStartFrom, foldl_min_le_iff]
  refine or_congr_right ⟨?_, ?_⟩
  · rintro ⟨⟨page, recLsn⟩, hmem, hzero, hle⟩
    exact ⟨page, recLsn, AList.mem_lookup_iff.mpr hmem, Nat.pos_of_ne_zero hzero, hle⟩
  · rintro ⟨page, recLsn, hlookup, hpos, hle⟩
    exact ⟨⟨page, recLsn⟩, AList.mem_lookup_iff.mp hlookup, Nat.ne_of_gt hpos, hle⟩

/-- `TouchesNoPage` (`src/wal/redo.cpp`). -/
def touchesNoPage (type : RecordType) : Bool :=
  type ∈ [.pageHandoff, .txnBegin, .txnCommit, .txnAbort, .checkpointBegin, .checkpointEnd, .pad]

/-- The assertion records: none of them changes a page in redo. -/
def isAssertionRecord (type : RecordType) : Bool :=
  type ∈ [.assertReserve, .assertCommit, .assertRollback, .assertBuild, .assertDrop,
    .assertSnapshot]

/-- The types whose effect on a page is redo's to apply. -/
def redoApplies (type : RecordType) : Bool := !touchesNoPage type && !isAssertionRecord type

/-- A scanned record that redo must apply: it names a page, is of a type redo applies, and its
    page does not leave the stream later in the scan. -/
structure MustApply (records pre : List DecodedRecord) (r : DecodedRecord)
    (post : List DecodedRecord) : Prop where
  split : records = pre ++ r :: post
  names : r.header.pageId ≠ invalidPageId
  applies : redoApplies r.type = true
  stays : ∀ r' ∈ post, ¬ (r'.type = .pageHandoff ∧ r'.header.pageId = r.header.pageId)

/-- Redo reaches every record it must apply: the start and the page's entry are not past it, and
    a scan from the start hands it out. -/
def RedoCovers (dev : LogDevice) (coreId : Nat) (res : AnalysisResult)
    (records : List DecodedRecord) : Prop :=
  ∀ pre r post, MustApply records pre r post →
    res.redoStartLsn ≤ r.lsn ∧
    (∃ recLsn, res.dirtyPages.lookup r.header.pageId = some recLsn ∧ recLsn ≤ r.lsn) ∧
    r ∈ scannedRecords dev coreId res.redoStartLsn

/-- If a checkpoint's entry is the first mention of the record's page since it last left the
    stream, then its recLSN is not past the record, and where it is zero some page's first mention
    is nonzero and not past the record. -/
def SeedReaches (records : List DecodedRecord) (r : DecodedRecord) : Prop :=
  ∀ recLsn, standing (mentions r.header.pageId records) = some (.listed recLsn) →
    recLsn ≤ r.lsn ∧
      (recLsn = 0 → ∃ page m recLsn', standing (mentions page records) = some m ∧
        m.recLsn = some recLsn' ∧ 0 < recLsn' ∧ recLsn' ≤ r.lsn)

/-- The least nonzero recLSN of a page's first mention since it last left the stream. -/
def LeastStanding (records : List DecodedRecord) : Nat → Prop :=
  IsLeast {recLsn | 0 < recLsn ∧ ∃ page m, standing (mentions page records) = some m ∧
    m.recLsn = some recLsn}

/-- The least standing recLSN is a scanned record's position, or else what the log holds there
    reads as records that lead to this one. -/
def StartReaches (dev : LogDevice) (coreId : Nat) (records : List DecodedRecord)
    (r : DecodedRecord) : Prop :=
  ∀ lsn, LeastStanding records lsn →
    (∃ r₀ ∈ records, r₀.lsn = lsn) ∨ r ∈ scannedRecords dev coreId lsn

variable {pre post : List DecodedRecord}

theorem MustApply.mentions_eq (h : MustApply records pre r post) :
    mentions r.header.pageId records = mentions r.header.pageId pre ++
      .logged r.lsn :: mentions r.header.pageId post ∧
    Mention.handedOff ∉ mentions r.header.pageId post := by
  have hhandoff : r.type ≠ .pageHandoff := fun ht => by
    have := h.applies
    rw [ht] at this
    cases this
  have hcheckpoint : r.type ≠ .checkpointBegin := fun ht => by
    have := h.applies
    rw [ht] at this
    cases this
  constructor
  · rw [h.split, mentions, flatMap_append, flatMap_cons, envelopeMention,
      if_pos ⟨rfl, h.names⟩, if_neg hhandoff, listedPages, if_neg hcheckpoint]
    rfl
  · intro hmem
    obtain ⟨r', hr', hmem⟩ := mem_flatMap.mp hmem
    rcases mem_append.mp hmem with hmem | hmem
    · rw [envelopeMention] at hmem
      split_ifs at hmem with hpage htype
      · exact h.stays r' hr' ⟨htype, hpage.1⟩
      · simp at hmem
      · cases hmem
    · obtain ⟨p, -, hp⟩ := mem_filterMap.mp hmem
      split_ifs at hp
      cases hp

/-- A mention with a recLSN is a record's own, or an entry of a dirty table some record carries. -/
theorem mention_source {page recLsn : Nat} (h : m ∈ mentions page records)
    (hrec : m.recLsn = some recLsn) : ∃ r ∈ records,
      m = .logged r.lsn ∧ r.header.pageId ≠ invalidPageId ∨
        m = .listed recLsn ∧ ∃ p ∈ listedPages r, p.recLsn.toNat = recLsn := by
  obtain ⟨r, hr, hmem⟩ := mem_flatMap.mp h
  refine ⟨r, hr, ?_⟩
  rcases mem_append.mp hmem with hmem | hmem
  · rw [envelopeMention] at hmem
    split_ifs at hmem with hpage
    · obtain rfl := mem_singleton.mp hmem
      cases hrec
    · exact .inl ⟨mem_singleton.mp hmem, hpage.1 ▸ hpage.2⟩
    · cases hmem
  · obtain ⟨p, hp, hlisted⟩ := mem_filterMap.mp hmem
    split_ifs at hlisted
    cases hlisted
    cases hrec
    exact .inr ⟨rfl, p, hp, rfl⟩

variable {endLsn : Nat}

theorem MustApply.standing_cases (h : MustApply records pre r post)
    (hstream : StreamOf dev coreId records endLsn) :
    (∃ lsn, standing (mentions r.header.pageId records) = some (.logged lsn) ∧ 0 < lsn ∧
        lsn ≤ r.lsn) ∨
      ∃ recLsn, standing (mentions r.header.pageId records) = some (.listed recLsn) := by
  obtain ⟨hmentions, hpost⟩ := h.mentions_eq
  have hstands : standing (mentions r.header.pageId records) =
      some ((standing (mentions r.header.pageId pre)).getD (.logged r.lsn)) := by
    rw [hmentions]
    exact standing_append_of_mention (fun hm => by cases hm) hpost
  have hr : r ∈ records := by rw [h.split]; simp
  cases hpre : standing (mentions r.header.pageId pre) with
  | none =>
    rw [hpre] at hstands
    exact .inl ⟨r.lsn, hstands, (hstream.within r hr).1, le_refl _⟩
  | some m =>
    rw [hpre, Option.getD_some] at hstands
    cases m with
    | handedOff => exact absurd rfl (standing_ne_handedOff hpre)
    | listed recLsn => exact .inr ⟨recLsn, hstands⟩
    | logged lsn =>
      obtain ⟨r', hr', ⟨heq, -⟩ | ⟨heq, -⟩⟩ := mention_source (mem_of_standing hpre) rfl
      swap
      · cases heq
      obtain rfl := Mention.logged.inj heq
      have hmem : r' ∈ records := by rw [h.split]; simp [hr']
      have hsorted := hstream.sorted
      rw [h.split] at hsorted
      have hbefore : r'.nextLsn ≤ r.lsn :=
        (pairwise_append.mp hsorted).2.2 r' hr' r (by simp)
      obtain ⟨hpos, hnonempty, -⟩ := hstream.within r' hmem
      exact .inl ⟨r'.lsn, hstands, hpos, by omega⟩

theorem StreamOf.mem_of_le
    (h : StreamOf dev coreId records endLsn) {r₀ r : DecodedRecord} (hr₀ : r₀ ∈ records)
    (hr : r ∈ records) (hle : r₀.lsn ≤ r.lsn) : r ∈ scannedRecords dev coreId r₀.lsn := by
  obtain ⟨pre, post, hsplit⟩ := append_of_mem hr₀
  rw [h.suffix pre r₀ post hsplit]
  have hsorted := h.sorted
  rw [hsplit] at hr hsorted
  rcases mem_append.mp hr with hr' | hr'
  · have hbefore : r.nextLsn ≤ r₀.lsn :=
      (pairwise_append.mp hsorted).2.2 r hr' r₀ (by simp)
    have hnonempty := (h.within r (by rw [hsplit]; exact hr)).2.1
    omega
  · exact hr'

/-- A redo start before the end of the log is the least standing recLSN. -/
theorem leastStanding_redoStart {dirty : NumMap Nat} (hlookup : ∀ page, dirty.lookup page =
      (standing (mentions page records)).bind Mention.recLsn)
    (hlt : redoStartFrom endLsn dirty < endLsn) {lsn : Nat} :
    LeastStanding records lsn ↔ lsn = redoStartFrom endLsn dirty := by
  have hle : ∀ x, x < endLsn → (redoStartFrom endLsn dirty ≤ x ↔ ∃ recLsn, recLsn ≤ x ∧
      0 < recLsn ∧ ∃ page m, standing (mentions page records) = some m ∧
        m.recLsn = some recLsn) := by
    intro x hx
    rw [redoStartFrom_le_iff, or_iff_right (Nat.not_le.mpr hx)]
    simp only [hlookup, Option.bind_eq_some_iff]
    constructor
    · rintro ⟨page, recLsn, ⟨m, hm, hrec⟩, hpos, hlex⟩
      exact ⟨recLsn, hlex, hpos, page, m, hm, hrec⟩
    · rintro ⟨recLsn, hlex, hpos, page, m, hm, hrec⟩
      exact ⟨page, recLsn, ⟨m, hm, hrec⟩, hpos, hlex⟩
  have hleast : LeastStanding records (redoStartFrom endLsn dirty) := by
    obtain ⟨recLsn, hbelow, hstands⟩ := (hle _ hlt).mp (le_refl _)
    have hlower : ∀ x, (0 < x ∧ ∃ page m, standing (mentions page records) = some m ∧
        m.recLsn = some x) → redoStartFrom endLsn dirty ≤ x := by
      intro x hx
      rcases Nat.lt_or_ge x endLsn with hend | hend
      · exact (hle x hend).mpr ⟨x, le_refl x, hx⟩
      · omega
    have heq : recLsn = redoStartFrom endLsn dirty := le_antisymm hbelow (hlower recLsn hstands)
    exact ⟨heq ▸ hstands, hlower⟩
  exact ⟨fun h => IsLeast.unique h hleast, fun h => h ▸ hleast⟩

/-- **When redo starts early enough.**  For every device and every start at which analysis
    succeeds: redo covers every record it must apply exactly when, for each of these, the
    checkpoint entry that its page's table entry may come from reaches it, and the walk from the
    least standing recLSN comes to it. -/
theorem redoStart_covers_iff {dev : LogDevice} {coreId : Nat} {start : AnalysisStart}
    {res : AnalysisResult} (h : analyze dev coreId start = .ok res) :
    RedoCovers dev coreId res (scannedRecords dev coreId start.redoStartLsn) ↔
      ∀ pre r post, MustApply (scannedRecords dev coreId start.redoStartLsn) pre r post →
        SeedReaches (scannedRecords dev coreId start.redoStartLsn) r ∧
          StartReaches dev coreId (scannedRecords dev coreId start.redoStartLsn) r := by
  obtain ⟨scan, out, hscan, -, hdirty, hstart⟩ := analyze_eq_ok h
  have hstream := (scanLog_spec hscan).2
  have hlookup := lookup_dirtyPages h
  generalize scannedRecords dev coreId start.redoStartLsn = records at hstream hlookup ⊢
  -- a standing mention reaches the record through the redo start when it is not zero
  have hreaches : ∀ {page m recLsn x}, standing (mentions page records) = some m →
      m.recLsn = some recLsn → 0 < recLsn → recLsn ≤ x → res.redoStartLsn ≤ x := by
    intro page m recLsn x hm hrec hpos hle
    rw [hstart, redoStartFrom_le_iff]
    refine .inr ⟨page, recLsn, ?_, hpos, hle⟩
    rw [← hdirty, hlookup, hm]
    exact hrec
  constructor
  · intro hcovers pre r post hmust
    obtain ⟨hle, ⟨recLsn', hentry, hentryLe⟩, hvisited⟩ := hcovers pre r post hmust
    refine ⟨fun recLsn hlisted => ?_, fun lsn hleast => .inr ?_⟩
    swap
    · obtain ⟨-, hnonempty, hstop⟩ := hstream.within r (by rw [hmust.split]; simp)
      rw [hstart] at hle hvisited
      have heq : lsn = redoStartFrom scan.endLsn out.dirtyPages :=
        (leastStanding_redoStart (hdirty ▸ hlookup) (by omega)).mp hleast
      exact heq ▸ hvisited
    rw [hlookup, hlisted] at hentry
    cases hentry
    refine ⟨hentryLe, fun _ => ?_⟩
    rw [hstart, redoStartFrom_le_iff] at hle
    rcases hle with hend | ⟨page, recLsn', hpage, hpos, hle⟩
    · have hr : r ∈ records := by rw [hmust.split]; simp
      obtain ⟨-, hnonempty, hstop⟩ := hstream.within r hr
      omega
    · rw [← hdirty, hlookup, Option.bind_eq_some_iff] at hpage
      obtain ⟨m, hm, hrec⟩ := hpage
      exact ⟨page, m, recLsn', hm, hrec, hpos, hle⟩
  · intro hseeds pre r post hmust
    have hr : r ∈ records := by rw [hmust.split]; simp
    have hle : res.redoStartLsn ≤ r.lsn ∧ ∃ recLsn,
        res.dirtyPages.lookup r.header.pageId = some recLsn ∧ recLsn ≤ r.lsn := by
      rcases hmust.standing_cases hstream with ⟨lsn, hstands, hpos, hle⟩ | ⟨recLsn, hstands⟩
      · exact ⟨hreaches hstands rfl hpos hle, lsn, by rw [hlookup, hstands]; rfl, hle⟩
      · obtain ⟨hle, hzero⟩ := (hseeds pre r post hmust).1 recLsn hstands
        refine ⟨?_, recLsn, by rw [hlookup, hstands]; rfl, hle⟩
        rcases Nat.eq_zero_or_pos recLsn with h₀ | hpos
        · obtain ⟨page, m, recLsn', hm, hrec, hpos, hle'⟩ := hzero h₀
          exact hreaches hm hrec hpos hle'
        · exact hreaches hstands rfl hpos hle
    refine ⟨hle.1, hle.2, ?_⟩
    obtain ⟨-, hnonempty, hstop⟩ := hstream.within r hr
    have hleast : LeastStanding records res.redoStartLsn :=
      (leastStanding_redoStart (hdirty ▸ hlookup) (by omega)).mpr hstart
    rcases (hseeds pre r post hmust).2 _ hleast with ⟨r₀, hr₀, hlsn⟩ | hvisited
    · rw [← hlsn] at hle ⊢
      exact hstream.mem_of_le hr₀ hr hle.1
    · exact hvisited

-- A checkpoint that lists a page at recLSN 0

open Lib

/-- The bytes of a segment: its header block, records one after another, and slack. -/
def segmentBytes (size coreId segmentNo : Nat) (records : List (RecordSpec × Codecs.Coded Bytes)) :
    Bytes :=
  let bytes := records.foldl
    (fun bytes record =>
      match record.2.toOption.bind fun payload =>
        (encodeRecord size record.1 (segmentNo * size + bytes.length) payload).toOption with
      | some encoded => bytes ++ encoded
      | none => bytes)
    (encodeSegmentHeader coreId segmentNo (segmentNo * size))
  bytes ++ List.replicate (size - bytes.length) 0

/-- Page 5 is dirty and described by no record when the checkpoint begins; then transaction 7
    inserts a row there and commits. -/
def crashedRecords (recLsn : UInt64) : List (RecordSpec × Codecs.Coded Bytes) :=
  [({ type := .checkpointBegin }, Codecs.encodeCheckpointBegin 128 [] [⟨5, recLsn⟩]),
    ({ type := .heapInsert, txnId := 7, pageId := 5 },
      Codecs.encodeHeapWrite 128 ⟨7, 0, 0, 8⟩ [1, 0, 0, 0, 0, 0, 0, 0]),
    ({ type := .txnCommit, txnId := 7 }, .ok [])]

/-- A log of one segment that holds the records. -/
def deviceOf (records : List (RecordSpec × Codecs.Coded Bytes))
    (h : (segmentBytes 4608 0 0 records).length = 4608) : LogDevice where
  segmentSize := 4608
  segments := [segmentBytes 4608 0 0 records]
  sized := fun s hs => mem_singleton.mp hs ▸ h
  addressable := by
    show 1 * 4608 < 2 ^ 64
    decide

def listedAtInsert : LogDevice := deviceOf (crashedRecords 4152) (by decide +kernel)

def listedAtZero : LogDevice := deviceOf (crashedRecords 0) (by decide +kernel)

theorem exists_analyze {dev : LogDevice} {coreId : Nat} {start : AnalysisStart}
    {p : AnalysisResult → Bool} (h : (analyze dev coreId start).toOption.any p = true) :
    ∃ res, analyze dev coreId start = .ok res ∧ p res = true := by
  cases hres : analyze dev coreId start with
  | error e => rw [hres] at h; cases h
  | ok res => rw [hres] at h; exact ⟨res, rfl, h⟩

/-- Listed at the position of the insert, the page is replayed from there. -/
theorem listedRecLsn_covers_insert :
    ∃ res, analyze listedAtInsert 0 {} = .ok res ∧ res.redoStartLsn = 4152 ∧
      RedoCovers listedAtInsert 0 res (scannedRecords listedAtInsert 0 0) := by
  obtain ⟨hstart, honly, hlists, hat, hseed⟩ :
      (analyze listedAtInsert 0 {}).toOption.any (fun res => res.redoStartLsn == 4152) = true ∧
      (∀ r ∈ scannedRecords listedAtInsert 0 0,
        r.header.pageId ≠ invalidPageId → r.header.pageId = 5 ∧ r.lsn = 4152) ∧
      (∀ r ∈ scannedRecords listedAtInsert 0 0, ∀ p ∈ listedPages r, p.recLsn.toNat = 4152) ∧
      (∃ r ∈ scannedRecords listedAtInsert 0 0, r.lsn = 4152) ∧
      standing (mentions 5 (scannedRecords listedAtInsert 0 0)) = some (.listed 4152) := by
    decide +kernel
  obtain ⟨res, hres, hstart⟩ := exists_analyze hstart
  refine ⟨res, hres, by simpa using hstart, (redoStart_covers_iff hres).mpr ?_⟩
  intro pre r post hmust
  obtain ⟨hpage, hlsn⟩ := honly r (hmust.split ▸ by simp) hmust.names
  refine ⟨fun recLsn hlisted => ?_, fun lsn hleast => .inl ?_⟩
  · rw [hpage] at hlisted
    obtain rfl : 4152 = recLsn := by simpa using hseed.symm.trans hlisted
    exact ⟨by omega, fun h => by cases h⟩
  · obtain ⟨-, page, m, hm, hrec⟩ := hleast.1
    obtain ⟨r', hr', ⟨rfl, -⟩ | ⟨-, p, hp, hplsn⟩⟩ := mention_source (mem_of_standing hm) hrec
    · exact ⟨r', hr', Option.some.inj hrec⟩
    · rw [← hplsn, hlists r' hr' p hp]
      exact hat

/-- A record, the insert, and the commit behind it. -/
def insertThenCommit : List DecodedRecord → Bool
  | [_, r, c] => decide (r.type = .heapInsert ∧ r.header.pageId = 5 ∧ r.lsn = 4152 ∧
      c.type = .txnCommit)
  | _ => false

/-- Listed at zero, it hides the insert: the redo start is the end of the log, past a committed
    row's record. -/
theorem zeroRecLsn_hides_insert :
    ∃ res, analyze listedAtZero 0 {} = .ok res ∧ res.redoStartLsn = 4248 ∧
      res.endLsn = 4248 ∧ ∃ pre r post,
        MustApply (scannedRecords listedAtZero 0 0) pre r post ∧
          r.type = .heapInsert ∧ r.lsn = 4152 ∧ ¬ res.redoStartLsn ≤ r.lsn := by
  obtain ⟨hstart, hrecords⟩ :
      (analyze listedAtZero 0 {}).toOption.any
        (fun res => res.redoStartLsn == 4248 && res.endLsn == 4248) = true ∧
      insertThenCommit (scannedRecords listedAtZero 0 0) = true := by
    decide +kernel
  obtain ⟨res, hres, hstart⟩ := exists_analyze hstart
  simp only [Bool.and_eq_true, beq_iff_eq] at hstart
  refine ⟨res, hres, hstart.1, hstart.2, ?_⟩
  rw [insertThenCommit.eq_def] at hrecords
  split at hrecords
  · next b r c hscan =>
      obtain ⟨hins, hpage, hlsn, hcommit⟩ := of_decide_eq_true hrecords
      refine ⟨[b], r, [c], ⟨hscan, ?_, ?_, ?_⟩, hins, hlsn, by omega⟩
      · rw [hpage]; decide
      · rw [hins]; rfl
      · intro r' hr' hhandoff
        obtain rfl := mem_singleton.mp hr'
        rw [hcommit] at hhandoff
        cases hhandoff.1
  · cases hrecords

end Kds.Wal
