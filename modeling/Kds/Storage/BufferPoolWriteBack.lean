/-
  Kds.Storage.BufferPoolWriteBack

  Write-back settles the pool: the gate is asked for the whole batch before a byte moves, a run goes
  out as its sealed frames, and a frame is clean only when its write was done.
-/

import Kds.Storage.BufferPoolOps
import Mathlib.Data.List.MinMax

namespace Kds.Storage.Pool

open Lib PageAlloc List

namespace DevicePageStore

variable {s s' : DevicePageStore} {p q : PageId} {frame : Frame}

-- Write-back

theorem exists_of_isDirty (h : s.isDirty p = true) :
    ∃ frame, s.frames.lookup p = some frame ∧ frame.dirty = true := by
  unfold isDirty at h
  cases hlook : s.frames.lookup p with
  | none =>
    rw [hlook] at h
    cases h
  | some frame =>
    rw [hlook] at h
    exact ⟨frame, rfl, h⟩

theorem SameBut.modifyFrame (s : DevicePageStore) (p : PageId) (f : Frame → Frame) :
    SameBut s (s.modifyFrame p f) ∧ (s.modifyFrame p f).device = s.device ∧
      (s.modifyFrame p f).written = s.written := by
  unfold DevicePageStore.modifyFrame
  cases s.frames.lookup p with
  | none => exact ⟨.refl s, rfl, rfl⟩
  | some frame => exact ⟨⟨rfl, rfl, rfl, rfl⟩, rfl, rfl⟩

theorem foldl_modifyFrame (g : PageId → Frame → Frame) (hg : ∀ p f, g p (g p f) = g p f)
    (run : List PageId) (s : DevicePageStore) :
    SameBut s (run.foldl (fun s p => s.modifyFrame p (g p)) s) ∧
      (run.foldl (fun s p => s.modifyFrame p (g p)) s).device = s.device ∧
      (run.foldl (fun s p => s.modifyFrame p (g p)) s).written = s.written ∧
      ∀ q, (run.foldl (fun s p => s.modifyFrame p (g p)) s).frames.lookup q =
        (s.frames.lookup q).map fun f => if q ∈ run then g q f else f := by
  induction run generalizing s with
  | nil => exact ⟨.refl s, rfl, rfl, fun q => by simp⟩
  | cons p rest ih =>
    obtain ⟨hsame, hdevice, hwritten⟩ := SameBut.modifyFrame s p (g p)
    obtain ⟨hsame', hdevice', hwritten', hlook⟩ := ih (s.modifyFrame p (g p))
    refine ⟨hsame.trans hsame', hdevice'.trans hdevice, hwritten'.trans hwritten, fun q => ?_⟩
    rw [foldl_cons, hlook, lookup_modifyFrame]
    by_cases hqp : q = p
    · subst hqp
      rw [if_pos rfl, Option.map_map]
      congr 1
      funext f
      by_cases hq : q ∈ rest
      · simp [hq, hg]
      · simp [hq]
    · rw [if_neg hqp]
      congr 1
      funext f
      simp [hqp]

theorem foldl_landFrame (durableLsn : Nat) (run : List PageId) (s : DevicePageStore) :
    SameBut s (run.foldl (landFrame durableLsn) s) ∧
      (run.foldl (landFrame durableLsn) s).frames = s.frames ∧
      (∀ q, (run.foldl (landFrame durableLsn) s).device.pages q =
        if q ∈ run then (s.cell q).value else s.device.pages q) ∧
      ∀ w ∈ (run.foldl (landFrame durableLsn) s).written, w ∈ s.written ∨
        ∃ p ∈ run, ∃ frame, s.frames.lookup p = some frame ∧
          w = ⟨p, frame.bytes, !s.isHeaderless p, durableLsn⟩ := by
  induction run generalizing s with
  | nil => exact ⟨.refl s, rfl, fun q => by simp, fun w hw => .inl hw⟩
  | cons p rest ih =>
    have hone : SameBut s (landFrame durableLsn s p) ∧
        (landFrame durableLsn s p).frames = s.frames ∧
        (∀ q, (landFrame durableLsn s p).device.pages q =
          if q = p then (s.cell q).value else s.device.pages q) ∧
        ∀ w ∈ (landFrame durableLsn s p).written, w ∈ s.written ∨
          ∃ frame, s.frames.lookup p = some frame ∧
            w = ⟨p, frame.bytes, !s.isHeaderless p, durableLsn⟩ := by
      unfold landFrame
      cases hlook : s.frames.lookup p with
      | none =>
        refine ⟨.refl s, rfl, fun q => ?_, fun w hw => .inl hw⟩
        dsimp only
        split_ifs with h
        · subst h
          rw [cell_value_of_none hlook]
        · rfl
      | some frame =>
        refine ⟨⟨rfl, rfl, rfl, rfl⟩, rfl, fun q => ?_, fun w hw => ?_⟩
        · dsimp only
          split_ifs with h
          · subst h
            rw [Function.update_self, cell_value_of_lookup hlook]
          · exact Function.update_of_ne h ..
        · rcases mem_cons.mp hw with rfl | hw
          · exact .inr ⟨frame, rfl, rfl⟩
          · exact .inl hw
    obtain ⟨hsame, hframes, hpages, hwritten⟩ := hone
    obtain ⟨hsame', hframes', hpages', hwritten'⟩ := ih (landFrame durableLsn s p)
    have hvalue : ∀ q, q ≠ p → ((landFrame durableLsn s p).cell q).value = (s.cell q).value := by
      intro q hq
      have hcell : (landFrame durableLsn s p).cell q = s.cell q := by
        unfold cell
        rw [hframes, hpages, if_neg hq]
      rw [hcell]
    refine ⟨hsame.trans hsame', hframes'.trans hframes, fun q => ?_, fun w hw => ?_⟩
    · rw [foldl_cons, hpages', hpages]
      by_cases hqp : q = p
      · subst hqp
        have hhere : ((landFrame durableLsn s q).cell q).value = (s.cell q).value := by
          cases hlook : s.frames.lookup q with
          | none =>
            rw [cell_value_of_none (by rw [hframes]; exact hlook), hpages, if_pos rfl]
          | some frame =>
            rw [cell_value_of_lookup (by rw [hframes]; exact hlook), cell_value_of_lookup hlook]
        simp [hhere]
      · simp [hqp, hvalue q hqp]
    · rcases hwritten' w hw with hw | ⟨q, hq, frame, hlook, rfl⟩
      · rcases hwritten w hw with hw | ⟨frame, hlook, rfl⟩
        · exact .inl hw
        · exact .inr ⟨p, mem_cons_self, frame, hlook, rfl⟩
      · rw [hframes] at hlook
        rw [hsame.isHeaderless]
        exact .inr ⟨q, mem_cons_of_mem p hq, frame, hlook, rfl⟩

/-- What the gate was asked for is behind the durable point. -/
def Gated (s : DevicePageStore) (durableLsn : Nat) (ids : List PageId) : Prop :=
  ∀ p ∈ ids, s.gateLsn p ≠ 0 → s.gateLsn p < durableLsn

/-- The frames of a run as they go out. -/
def sealedRun (s : DevicePageStore) (run : List PageId) : DevicePageStore :=
  run.foldl (sealFrame s.stampIfHeadered) s

theorem sealedRun_spec (s : DevicePageStore) (run : List PageId) :
    SameBut s (s.sealedRun run) ∧ (s.sealedRun run).device = s.device ∧
      (s.sealedRun run).written = s.written ∧
      ∀ q, (s.sealedRun run).frames.lookup q = (s.frames.lookup q).map fun f =>
        if q ∈ run then { f with bytes := s.stampIfHeadered q f.bytes } else f := by
  apply foldl_modifyFrame fun p (f : Frame) => { f with bytes := s.stampIfHeadered p f.bytes }
  intro p f
  simp

variable {run landed : List PageId} {durableLsn : Nat}

theorem covered_landed (hrun : ∀ p ∈ run, s.isDirty p = true) (hgate : s.Gated durableLsn run)
    (hsub : ∀ p ∈ landed, p ∈ run) (hcov : s.Covered) :
    (landed.foldl (landFrame durableLsn) (s.sealedRun run)).Covered := by
  obtain ⟨hsame, -, hwritten, hlook⟩ := s.sealedRun_spec run
  obtain ⟨-, -, -, hland⟩ := foldl_landFrame durableLsn landed (s.sealedRun run)
  intro w hw hheadered hlsn
  rcases hland w hw with hw | ⟨p, hp, frame', hlook', rfl⟩
  · rw [hwritten] at hw
    exact hcov w hw hheadered hlsn
  · obtain ⟨frame, hframe, hdirty⟩ := exists_of_isDirty (hrun p (hsub p hp))
    rw [hlook, hframe] at hlook'
    simp only [Option.map_some, hsub p hp, if_true] at hlook'
    cases hlook'
    have hless : s.isHeaderless p = false := by
      rw [← hsame.isHeaderless]
      simpa using hheadered
    have hpage : (s.stampIfHeadered p frame.bytes).getPageLsn = frame.bytes.getPageLsn := by
      unfold stampIfHeadered
      rw [hless, if_neg Bool.false_ne_true, Page.getPageLsn_stamp]
    have hasked : s.gateLsn p = frame.bytes.getPageLsn := by
      unfold gateLsn
      rw [hframe]
      simp [hdirty, hless]
    dsimp only at hlsn ⊢
    rw [hpage] at hlsn ⊢
    rw [← hasked] at hlsn ⊢
    exact hgate p (hsub p hp) hlsn

theorem Settles.of_run {run : List PageId} (hsame : SameBut s s')
    (hframe : ∀ q ∉ run, s'.frames.lookup q = s.frames.lookup q)
    (hpages : ∀ q ∉ run, s'.device.pages q = s.device.pages q)
    (hresident : ∀ q ∈ run, s.frames.lookup q ≠ none)
    (hcell : ∀ q ∈ run, CachedCell.Quiet (s.stampIfHeadered q) (s.Intact q) (s.cell q) (s'.cell q))
    (hpins : ∀ q ∈ run, s'.pins q = s.pins q) (hcov : s.Covered → s'.Covered) : Settles s s' := by
  refine ⟨⟨hsame, fun ha q hq => ?_, fun q _ => ?_, fun q _ hun => ?_, hcov⟩, fun q => ?_⟩
  · rw [hsame.capacity]
    by_cases hrun : q ∈ run
    · exact ha q (hresident q hrun)
    · rw [hframe q hrun] at hq
      exact ha q hq
  · by_cases hq : q ∈ run
    · exact hcell q hq
    · have hsame : s'.cell q = s.cell q := by
        unfold cell
        rw [hframe q hq, hpages q hq]
      rw [hsame]
      exact .refl _
  · by_cases hq : q ∈ run
    · exact absurd hun.1 (hresident q hq)
    · unfold Unwritten at hun ⊢
      rw [hframe q hq, hpages q hq, hsame.capacity, hsame.isHeaderless]
      exact hun
  · by_cases hq : q ∈ run
    · exact hpins q hq
    · exact pins_congr (hframe q hq)

theorem Settles.run_failed (hrun : ∀ p ∈ run, s.isDirty p = true) (hgate : s.Gated durableLsn run)
    (hsub : ∀ p ∈ landed, p ∈ run) :
    Settles s (landed.foldl (landFrame durableLsn) (s.sealedRun run)) := by
  obtain ⟨hsame, hdevice, -, hlook⟩ := s.sealedRun_spec run
  obtain ⟨hsame', hframes, hpages, -⟩ := foldl_landFrame durableLsn landed (s.sealedRun run)
  have hstays : ∀ q ∉ run, (s.sealedRun run).frames.lookup q = s.frames.lookup q := by
    intro q hq
    rw [hlook]
    simp [hq]
  apply @Settles.of_run s _ run (hsame.trans hsame')
  · intro q hq
    rw [hframes, hstays q hq]
  · intro q hq
    rw [hpages, if_neg fun h => hq (hsub q h), hdevice]
  · intro q hq hnone
    obtain ⟨frame, hframe, -⟩ := exists_of_isDirty (hrun q hq)
    rw [hframe] at hnone
    cases hnone
  · intro q hq
    obtain ⟨frame, hframe, hdirty⟩ := exists_of_isDirty (hrun q hq)
    have hentry : (s.cell q).entry = some ⟨frame.bytes,
      frame.dirty⟩ := by rw [cell_of_lookup hframe]
    have hafter : (landed.foldl (landFrame durableLsn) (s.sealedRun run)).frames.lookup q =
        some { frame with bytes := s.stampIfHeadered q frame.bytes } := by
      rw [hframes, hlook, hframe]
      simp [hq]
    rw [cell_of_lookup hafter, hdirty]
    exact .writeFailed hentry _
  · intro q hq
    obtain ⟨frame, hframe, -⟩ := exists_of_isDirty (hrun q hq)
    have hafter : (landed.foldl (landFrame durableLsn) (s.sealedRun run)).frames.lookup q =
        some { frame with bytes := s.stampIfHeadered q frame.bytes } := by
      rw [hframes, hlook, hframe]
      simp [hq]
    rw [pins_of_lookup hframe, pins_of_lookup hafter]
  · exact covered_landed hrun hgate hsub

/-- A run that is written and clean: on the device as in its frames. -/
def writtenRun (s : DevicePageStore) (durableLsn : Nat) (run : List PageId) : DevicePageStore :=
  run.foldl cleanFrame (run.foldl (landFrame durableLsn) (s.sealedRun run))

theorem writtenRun_spec {run : List PageId} {durableLsn : Nat} :
    SameBut s (s.writtenRun durableLsn run) ∧
      (∀ q, (s.writtenRun durableLsn run).frames.lookup q = (s.frames.lookup q).map fun f =>
        if q ∈ run then { f with
          bytes := s.stampIfHeadered q f.bytes
          dirty := false
          recLsn := 0 } else f) ∧
      (s.writtenRun durableLsn run).device =
        (run.foldl (landFrame durableLsn) (s.sealedRun run)).device ∧
      (s.writtenRun durableLsn run).written =
        (run.foldl (landFrame durableLsn) (s.sealedRun run)).written := by
  obtain ⟨hsame, -, -, hlook⟩ := s.sealedRun_spec run
  obtain ⟨hsame', hframes, -, -⟩ := foldl_landFrame durableLsn run (s.sealedRun run)
  obtain ⟨hsame'', hdevice, hwritten, hlook''⟩ := foldl_modifyFrame
    (fun _ (f : Frame) => { f with dirty := false, recLsn := 0 }) (fun _ _ => rfl) run
    (run.foldl (landFrame durableLsn) (s.sealedRun run))
  refine ⟨(hsame.trans hsame').trans hsame'', fun q => ?_, hdevice, hwritten⟩
  refine (hlook'' q).trans ?_
  rw [hframes, hlook, Option.map_map]
  congr 1
  funext f
  by_cases hq : q ∈ run
  · simp [hq]
  · simp [hq]

theorem Settles.run_written
    (hrun : ∀ p ∈ run, s.isDirty p = true) (hgate : s.Gated durableLsn run) :
    Settles s (s.writtenRun durableLsn run) := by
  obtain ⟨-, hdevice, -, hlook⟩ := s.sealedRun_spec run
  obtain ⟨-, -, hpages, -⟩ := foldl_landFrame durableLsn run (s.sealedRun run)
  obtain ⟨hsame, hlook', hdevice', hwritten'⟩ := @writtenRun_spec s run durableLsn
  have hafter : ∀ q ∈ run, ∀ frame, s.frames.lookup q = some frame →
      (s.writtenRun durableLsn run).frames.lookup q = some { frame with
        bytes := s.stampIfHeadered q frame.bytes
        dirty := false
        recLsn := 0 } := by
    intro q hq frame hframe
    rw [hlook', hframe]
    simp [hq]
  apply @Settles.of_run s _ run hsame
  · intro q hq
    rw [hlook']
    simp [hq]
  · intro q hq
    rw [hdevice', hpages, if_neg hq, hdevice]
  · intro q hq hnone
    obtain ⟨frame, hframe, -⟩ := exists_of_isDirty (hrun q hq)
    rw [hframe] at hnone
    cases hnone
  · intro q hq
    obtain ⟨frame, hframe, -⟩ := exists_of_isDirty (hrun q hq)
    have hentry : (s.cell q).entry = some ⟨frame.bytes,
      frame.dirty⟩ := by rw [cell_of_lookup hframe]
    have hpage : (s.writtenRun durableLsn run).device.pages q =
        s.stampIfHeadered q frame.bytes := by
      have hsealed : (s.sealedRun run).frames.lookup q =
          some { frame with bytes := s.stampIfHeadered q frame.bytes } := by
        rw [hlook, hframe]
        simp [hq]
      rw [hdevice', hpages, if_pos hq, cell_value_of_lookup hsealed]
    rw [cell_of_lookup (hafter q hq frame hframe), hpage]
    exact .writeOut hentry (s.intact_stampIfHeadered q frame.bytes)
  · intro q hq
    obtain ⟨frame, hframe, -⟩ := exists_of_isDirty (hrun q hq)
    rw [pins_of_lookup hframe, pins_of_lookup (hafter q hq frame hframe)]
  · intro hcov
    unfold Covered
    rw [hwritten']
    exact covered_landed hrun hgate (fun _ h => h) hcov

theorem gateLsn_writtenRun (run : List PageId) (durableLsn : Nat) (q : PageId) :
    (s.writtenRun durableLsn run).gateLsn q = s.gateLsn q ∨
      (s.writtenRun durableLsn run).gateLsn q = 0 := by
  obtain ⟨hsame, hlook, -, -⟩ := @writtenRun_spec s run durableLsn
  unfold gateLsn
  rw [hlook, hsame.isHeaderless]
  cases s.frames.lookup q with
  | none => exact .inl rfl
  | some frame =>
    by_cases hq : q ∈ run
    · exact .inr (by simp [hq])
    · exact .inl (by simp [hq])

theorem runAfter_spec (room : Nat) (last : PageId) (rest : List PageId) :
    ∀ q ∈ s.runAfter room last rest, q ∈ rest ∧ s.isDirty q = true := by
  induction rest generalizing room last with
  | nil =>
    intro q hq
    cases room with
    | zero => cases hq
    | succ room => cases hq
  | cons next rest ih =>
    intro q hq
    cases room with
    | zero => cases hq
    | succ room =>
      unfold runAfter at hq
      split_ifs at hq with hnext
      · rcases mem_cons.mp hq with rfl | hq
        · exact ⟨mem_cons_self, hnext.2⟩
        · obtain ⟨hin, hdirty⟩ := ih room next q hq
          exact ⟨mem_cons_of_mem next hin, hdirty⟩
      · cases hq

theorem Settles.writeRuns (durableLsn : Nat) (answers : PoolAnswers) (fuel : Nat)
    (ids : List PageId) (written : Nat) (hgate : s.Gated durableLsn ids) :
    Settles s (s.writeRuns durableLsn answers fuel ids written).1 := by
  induction fuel generalizing s ids written with
  | zero => exact .refl s
  | succ fuel ih =>
    cases ids with
    | nil => exact .refl s
    | cons p rest =>
      unfold DevicePageStore.writeRuns
      by_cases hdirty : s.isDirty p = true
      · rw [if_pos hdirty]
        dsimp only
        have hlater := @runAfter_spec s (kWritebackRunPages - 1) p rest
        have hrun : ∀ q ∈ p :: s.runAfter (kWritebackRunPages - 1) p rest,
            s.isDirty q = true := by
          intro q hq
          rcases mem_cons.mp hq with rfl | hq
          · exact hdirty
          · exact (hlater q hq).2
        have hgated : s.Gated durableLsn (p :: s.runAfter (kWritebackRunPages - 1) p rest) := by
          intro q hq
          apply hgate q
          rcases mem_cons.mp hq with rfl | hq
          · exact mem_cons_self
          · exact mem_cons_of_mem p (hlater q hq).1
        cases answers.write p with
        | some failed =>
          exact Settles.run_failed hrun hgated fun q hq => mem_of_mem_take hq
        | none =>
          refine (Settles.run_written hrun hgated).trans (ih _ _ fun q hq hlsn => ?_)
          have hin : q ∈ p :: rest := mem_cons_of_mem p (mem_of_mem_drop hq)
          rcases gateLsn_writtenRun (p :: s.runAfter (kWritebackRunPages - 1) p rest)
            durableLsn q with h | h
          · rw [h] at hlsn ⊢
            exact hgate q hin hlsn
          · exact absurd h hlsn
      · rw [if_neg hdirty]
        exact ih rest written fun q hq => hgate q (mem_cons_of_mem p hq)

theorem gated_of_awaitWalGate {wal wal' : Wal.WalManager} {failure : Option Status}
    {ids : List PageId} (h : s.awaitWalGate wal failure ids = (wal', none)) :
    s.Gated wal'.durableLsn ids := by
  intro p hp hlsn
  have hle : s.gateLsn p ≤ (ids.map s.gateLsn).foldr max 0 :=
    le_max_of_le' 0 (mem_map_of_mem hp) (Nat.le_refl _)
  unfold awaitWalGate at h
  dsimp only at h
  split_ifs at h with hzero
  · omega
  · exact Nat.lt_of_le_of_lt hle (Wal.WalManager.lt_durableLsn_of_ensureDurable h)

theorem Settles.writeBack (s : DevicePageStore) (wal : Wal.WalManager) (answers : PoolAnswers)
    (ids : List PageId) : Settles s (s.writeBack wal answers ids).1 := by
  unfold DevicePageStore.writeBack
  dsimp only
  rcases hout : s.awaitWalGate wal answers.syncLog ((ids.insertionSort (· ≤ ·)).dedup) with
    ⟨wal', _ | e⟩
  · exact Settles.writeRuns _ _ _ _ _ (gated_of_awaitWalGate hout)
  · exact .refl s

theorem Settles.drainDirtyEvictionQueue (s : DevicePageStore) (wal : Wal.WalManager)
    (answers : PoolAnswers) : Settles s (s.drainDirtyEvictionQueue wal answers).1 := by
  unfold DevicePageStore.drainDirtyEvictionQueue
  split_ifs
  · exact .refl s
  · have htaken : Settles s { s with dirtyEvictionQueue := [] } :=
      .of_same ⟨rfl, rfl, rfl, rfl⟩ rfl rfl rfl
    exact htaken.trans (.writeBack _ wal answers _)

-- The maps

theorem getPageLsn_mapImage (pageType : Nat) (bits : Bitmap) :
    (mapImage pageType bits).getPageLsn = 0 := by
  unfold mapImage
  rw [Page.getPageLsn_stamp]
  rfl

theorem Settles.landMap (s : DevicePageStore) (durableLsn : Nat) {image : Page}
    (hmap : isMapPageId p = true) (hlsn : image.getPageLsn = 0) :
    Settles s (s.landMap durableLsn p image) := by
  have hpages : ∀ q, isMapPageId q = false →
      (s.landMap durableLsn p image).device.pages q = s.device.pages q := by
    intro q hq
    apply Function.update_of_ne
    rintro rfl
    rw [hmap] at hq
    cases hq
  have hsame : SameBut s (s.landMap durableLsn p image) := ⟨rfl, rfl, rfl, rfl⟩
  refine ⟨⟨hsame, fun ha => ha, fun q hq => ?_, fun q hq hun => ?_,
    fun hcov w hw hheadered hw0 => ?_⟩, fun q => rfl⟩
  · have hcell : (s.landMap durableLsn p image).cell q = s.cell q := by
      unfold cell
      rw [hpages q hq]
      rfl
    rw [hcell]
    exact .refl _
  · unfold Unwritten at hun ⊢
    rw [hpages q hq, hsame.capacity, hsame.isHeaderless]
    exact hun
  · rcases mem_cons.mp hw with rfl | hw
    · exact absurd hlsn hw0
    · exact hcov w hw hheadered hw0

theorem isMapPageId_freeMapPageId (region : Nat) :
    isMapPageId (freeMapPageIdFor (freeMapRegionBase region)) = true := by
  unfold isMapPageId
  rw [bitIndexOf_freeMapPageId]
  rfl

theorem isMapPageId_headerlessMapPageId (id : PageId) :
    isMapPageId (headerlessMapPageIdFor id) = true := by
  unfold isMapPageId
  rw [bitIndexOf_headerlessMapPageId]
  rfl

theorem settles_landFreeMap (durableLsn : Nat) (answers : PoolAnswers) (region : Nat)
    (bits : Bitmap) {rest : List Nat}
    (hrest : Settles (s.landMap durableLsn (freeMapPageIdFor (freeMapRegionBase region))
      (mapImage kFreeMapType bits)) ((s.landMap durableLsn
        (freeMapPageIdFor (freeMapRegionBase region)) (mapImage kFreeMapType bits)).flushMaps
          durableLsn answers rest).1) :
    Settles s (match answers.write (freeMapPageIdFor (freeMapRegionBase region)) with
      | some (e, _) => (s, some e)
      | none => (s.landMap durableLsn (freeMapPageIdFor (freeMapRegionBase region))
          (mapImage kFreeMapType bits)).flushMaps durableLsn answers rest).1 := by
  cases answers.write (freeMapPageIdFor (freeMapRegionBase region)) with
  | some failed => exact .refl s
  | none =>
    exact (Settles.landMap s durableLsn (isMapPageId_freeMapPageId region)
      (getPageLsn_mapImage _ _)).trans hrest

theorem Settles.flushMaps (s : DevicePageStore) (durableLsn : Nat) (answers : PoolAnswers)
    (regions : List Nat) : Settles s (s.flushMaps durableLsn answers regions).1 := by
  induction regions generalizing s with
  | nil => exact .refl s
  | cons region rest ih =>
    have hfree := fun (s : DevicePageStore) bits =>
      settles_landFreeMap durableLsn answers region bits (ih (s.landMap durableLsn
        (freeMapPageIdFor (freeMapRegionBase region)) (mapImage kFreeMapType bits)))
    unfold DevicePageStore.flushMaps
    split_ifs
    · exact .refl s
    · cases s.maps.mapRegions region with
      | none => exact ih s
      | some pages =>
        dsimp only
        cases pages.headerlessMap with
        | none => exact hfree s pages.freeMap
        | some bits =>
          dsimp only
          cases answers.write (headerlessMapPageIdFor (freeMapRegionBase region)) with
          | some failed => exact .refl s
          | none =>
            exact (Settles.landMap s durableLsn (isMapPageId_headerlessMapPageId _)
              (getPageLsn_mapImage _ _)).trans (hfree _ _)

theorem Settles.flush (s : DevicePageStore) (wal : Wal.WalManager) (answers : PoolAnswers)
    (mapsDirty : List Nat) : Settles s (s.flush wal answers mapsDirty).1 := by
  unfold DevicePageStore.flush
  have hback := Settles.writeBack s wal answers (s.frames.keys.filter s.isDirty)
  rcases hout : s.writeBack wal answers (s.frames.keys.filter s.isDirty) with ⟨s', wal', e | n⟩
  · rw [hout] at hback
    exact hback
  · rw [hout] at hback
    exact hback.trans (.flushMaps s' _ answers mapsDirty)

theorem Settles.flushPages (s : DevicePageStore) (wal : Wal.WalManager) (answers : PoolAnswers)
    (ids : List PageId) (mapsDirty : List Nat) :
    Settles s (s.flushPages wal answers ids mapsDirty).1 := by
  unfold DevicePageStore.flushPages
  have hback := Settles.writeBack s wal answers ids
  rcases hout : s.writeBack wal answers ids with ⟨s', wal', e | n⟩
  · rw [hout] at hback
    exact hback
  · rw [hout] at hback
    have hmaps := Settles.flushMaps s' wal'.durableLsn answers mapsDirty
    dsimp only
    rcases hflush : s'.flushMaps wal'.durableLsn answers mapsDirty with ⟨s'', _ | e⟩
    · rw [hflush] at hmaps
      dsimp only
      split_ifs
      · exact hback.trans hmaps
      · exact hback.trans hmaps
    · rw [hflush] at hmaps
      exact hback.trans hmaps

end DevicePageStore

end Kds.Storage.Pool
