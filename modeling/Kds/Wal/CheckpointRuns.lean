/-
  Kds.Wal.CheckpointRuns

  Anchors never run ahead of the data, in the runs that publish over synced writes.

  A frame's recLSN is cleared when its write is issued, and a checkpoint that finds nothing to flush
  syncs nothing; so a page that eviction wrote back may still be in the device's cache when the
  superblock is written.  What carries the result is that whatever a page on the device lacks is at
  or above the recLSN of a write still unsynced, or of the dirty frame.
-/

import Kds.Wal.Checkpoint

namespace Kds.Wal

open Lib List

namespace CheckpointState

variable {s s' : CheckpointState} {p lsn redoStart : Nat} {frame : CheckpointFrame}
    {c : CheckpointProgress}

-- What the store knows of its pages

/-- A frame that covers a record: dirty, with a recLSN no newer. -/
def Covers (s : CheckpointState) (p lsn : Nat) : Prop :=
  (s.frames p).dirty = true ∧ (s.frames p).recLsn ≠ 0 ∧ (s.frames p).recLsn ≤ lsn

/-- A write still in the device's cache that covers a record. -/
def CoversUnsynced (s : CheckpointState) (p lsn : Nat) : Prop :=
  ∃ w ∈ s.disk.unsynced, w.1 = p ∧ w.2.recLsn ≠ 0 ∧ w.2.recLsn ≤ lsn

structure Sound (s : CheckpointState) : Prop where
  framed : ∀ lsn p, (lsn, p) ∈ s.log → lsn ∈ (s.frames p).image.effects
  logged_le : ∀ lsn p, (lsn, p) ∈ s.log → lsn ≤ s.lastLsn
  /-- What a value on the device lacks is covered. -/
  missing : ∀ lsn p, (lsn, p) ∈ s.log → ∀ left, s.disk.Survives p left →
    lsn ∈ left.image.effects ∨ s.CoversUnsynced p lsn ∨ s.Covers p lsn
  latest : ∀ lsn p, (lsn, p) ∈ s.log →
    lsn ∈ (s.disk.latest p).image.effects ∨ s.Covers p lsn
  clean : ∀ p, (s.frames p).dirty = false → (s.frames p).recLsn = 0
  resident : ∀ p, (s.frames p).dirty = true → p ∈ s.resident
  /-- A recLSN names a record of the page that nothing on the device has. -/
  recLsn : ∀ p, (s.frames p).recLsn ≠ 0 → ((s.frames p).recLsn, p) ∈ s.log ∧
    ∀ left, s.disk.Survives p left → (s.frames p).recLsn ∉ left.image.effects
  unsynced : ∀ w ∈ s.disk.unsynced, w.2.recLsn ≠ 0 → (w.2.recLsn, w.1) ∈ s.log ∧
    w.2.recLsn ∉ (s.disk.durable w.1).image.effects
  effects_le : ∀ p left, s.disk.Survives p left → ∀ lsn ∈ left.image.effects, lsn ≤ s.lastLsn
  frame_le : ∀ p, ∀ lsn ∈ (s.frames p).image.effects, lsn ≤ s.lastLsn

/-- Every dirty frame is at or above a redo start. -/
def Behind (s : CheckpointState) (redoStart : Nat) : Prop :=
  redoStart ≤ s.lastLsn ∧ ∀ p, (s.frames p).recLsn = 0 ∨ redoStart ≤ (s.frames p).recLsn

/-- And every write that is not synced. -/
def Armed (s : CheckpointState) (redoStart : Nat) : Prop :=
  s.Behind redoStart ∧ ∀ w ∈ s.disk.unsynced, w.2.recLsn = 0 ∨ redoStart ≤ w.2.recLsn

/-- A redo start that the superblock has, in its frame or on the device. -/
def Anchored (s : CheckpointState) (redoStart : Nat) : Prop :=
  (s.frames kSuperBlockPageId).image.anchor = some redoStart ∨
    ∃ super, s.disk.Survives kSuperBlockPageId super ∧ super.image.anchor = some redoStart

structure Inv (s : CheckpointState) : Prop where
  sound : s.Sound
  anchored : ∀ redoStart, s.Anchored redoStart → s.Armed redoStart
  checkpointed : ∀ c, s.checkpoint = some c → s.Behind c.redoStart

theorem Inv.anchorBehind (h : s.Inv) : AnchorBehind s := by
  intro super redoStart hsuper hanchor p left hleft lsn hlog hlt
  obtain ⟨⟨-, hframes⟩, hwrites⟩ := h.anchored redoStart (.inr ⟨super, hsuper, hanchor⟩)
  rcases h.sound.missing lsn p hlog left hleft with hin | ⟨w, hw, -, hne, hle⟩ | ⟨-, hne, hle⟩
  · exact hin
  · rcases hwrites w hw with hzero | hge
    · exact absurd hzero hne
    · omega
  · rcases hframes p with hzero | hge
    · exact absurd hzero hne
    · omega

-- Writeback

theorem frames_writePage (s : CheckpointState) (p q : Nat) : (s.writePage p).frames q =
    if q = p then { s.frames p with dirty := false, recLsn := 0 } else s.frames q := by
  dsimp only [writePage]
  rw [Function.update_apply]

theorem Covers.of_frame {q : Nat} (h : s.Covers q lsn) (hframe : s'.frames q = s.frames q) :
    s'.Covers q lsn := by
  unfold Covers
  rw [hframe]
  exact h

theorem Sound.writePage (h : s.Sound) (p : Nat) : (s.writePage p).Sound := by
  have hother : ∀ q, q ≠ p → (s.writePage p).frames q = s.frames q := fun q hq => by
    rw [frames_writePage, if_neg hq]
  have hself : (s.writePage p).frames p = { s.frames p with dirty := false, recLsn := 0 } := by
    rw [frames_writePage, if_pos rfl]
  -- a record that the frame covered is covered by the write
  have hcover : ∀ q lsn, s.Covers q lsn →
      (s.writePage p).CoversUnsynced q lsn ∨ (s.writePage p).Covers q lsn := by
    intro q lsn hq
    by_cases heq : q = p
    · subst heq
      exact .inl ⟨_, mem_cons_self, rfl, hq.2.1, hq.2.2⟩
    · exact .inr (hq.of_frame (hother q heq))
  have hunsynced : ∀ q lsn, s.CoversUnsynced q lsn → (s.writePage p).CoversUnsynced q lsn := by
    rintro q lsn ⟨w, hw, hrest⟩
    exact ⟨w, mem_cons_of_mem _ hw, hrest⟩
  have hsurvives : ∀ q left, (s.writePage p).disk.Survives q left →
      s.disk.Survives q left ∨ (q = p ∧ left = ⟨(s.frames p).image, (s.frames p).recLsn⟩) :=
    fun q left hleft => CachedDisk.survives_write.mp hleft
  refine ⟨?_, h.logged_le, ?_, ?_, ?_, ?_, ?_, ?_, ?_, ?_⟩
  · intro lsn q hlog
    rw [frames_writePage]
    split_ifs with hq
    · exact hq ▸ h.framed lsn q hlog
    · exact h.framed lsn q hlog
  · intro lsn q hlog left hleft
    rcases hsurvives q left hleft with hold | ⟨rfl, rfl⟩
    · rcases h.missing lsn q hlog left hold with hin | hun | hco
      · exact .inl hin
      · exact .inr (.inl (hunsynced q lsn hun))
      · exact .inr (hcover q lsn hco)
    · exact .inl (h.framed lsn q hlog)
  · intro lsn q hlog
    have hlatest : (s.writePage p).disk.latest q =
        if p = q then ⟨(s.frames p).image, (s.frames p).recLsn⟩ else s.disk.latest q :=
      CachedDisk.latest_write _ _ _ _
    rw [hlatest]
    split_ifs with hq
    · subst hq
      exact .inl (h.framed lsn p hlog)
    · refine (h.latest lsn q hlog).imp id fun hco => ?_
      exact hco.of_frame (hother q (Ne.symm hq))
  · intro q hq
    by_cases heq : q = p
    · subst heq
      rw [hself]
    · rw [hother q heq] at hq ⊢
      exact h.clean q hq
  · intro q hq
    by_cases heq : q = p
    · subst heq
      rw [hself] at hq
      cases hq
    · rw [hother q heq] at hq
      exact h.resident q hq
  · intro q hq
    by_cases heq : q = p
    · subst heq
      rw [hself] at hq
      exact absurd rfl hq
    · rw [hother q heq] at hq ⊢
      refine ⟨(h.recLsn q hq).1, fun left hleft => ?_⟩
      rcases hsurvives q left hleft with hold | ⟨rfl, -⟩
      · exact (h.recLsn q hq).2 left hold
      · exact absurd rfl heq
  · intro w hw hne
    rcases mem_cons.mp hw with rfl | hold
    · obtain ⟨hlog, hfresh⟩ := h.recLsn p hne
      exact ⟨hlog, hfresh _ (.inl rfl)⟩
    · exact h.unsynced w hold hne
  · intro q left hleft lsn hin
    rcases hsurvives q left hleft with hold | ⟨rfl, rfl⟩
    · exact h.effects_le q left hold lsn hin
    · exact h.frame_le q lsn hin
  · intro q lsn hin
    rw [frames_writePage] at hin
    split_ifs at hin with hq
    · exact h.frame_le p lsn hin
    · exact h.frame_le q lsn hin

theorem Behind.writePage (h : s.Behind redoStart) (p : Nat) : (s.writePage p).Behind redoStart := by
  refine ⟨h.1, fun q => ?_⟩
  rw [frames_writePage]
  split_ifs
  · exact .inl rfl
  · exact h.2 q

theorem Armed.writePage (h : s.Armed redoStart) (p : Nat) : (s.writePage p).Armed redoStart := by
  refine ⟨h.1.writePage p, fun w hw => ?_⟩
  rcases mem_cons.mp hw with rfl | hold
  · exact h.1.2 p
  · exact h.2 w hold

theorem anchored_writePage (h : (s.writePage p).Anchored redoStart) : s.Anchored redoStart := by
  rcases h with hframe | ⟨super, hsuper, hanchor⟩
  · rw [frames_writePage] at hframe
    split_ifs at hframe with hp
    · exact .inl (hp ▸ hframe)
    · exact .inl hframe
  · rcases CachedDisk.survives_write.mp hsuper with hold | ⟨rfl, rfl⟩
    · exact .inr ⟨super, hold, hanchor⟩
    · exact .inl hanchor

theorem Inv.writePage (h : s.Inv) (p : Nat) : (s.writePage p).Inv where
  sound := h.sound.writePage p
  anchored redoStart hanchor := (h.anchored redoStart (anchored_writePage hanchor)).writePage p
  checkpointed c hc := (h.checkpointed c hc).writePage p

theorem Inv.writePages (h : s.Inv) (pageIds : List Nat) : (s.writePages pageIds).Inv := by
  induction pageIds generalizing s with
  | nil => exact h
  | cons p rest ih => exact ih (h.writePage p)

theorem Inv.syncDisk (h : s.Inv) : s.syncDisk.Inv := by
  have hread : ∀ {p left}, s.syncDisk.disk.Survives p left → s.disk.latest p = left :=
    fun hleft => CachedDisk.survives_sync.mp hleft
  have hsurvives : ∀ {p left}, s.syncDisk.disk.Survives p left → s.disk.Survives p left := by
    intro p left hleft
    rw [← hread hleft]
    exact CachedDisk.survives_latest _ _
  refine ⟨⟨h.sound.framed, h.sound.logged_le, ?_, ?_, h.sound.clean, h.sound.resident, ?_, ?_, ?_,
    h.sound.frame_le⟩, ?_, h.checkpointed⟩
  · intro lsn p hlog left hleft
    rw [← hread hleft]
    exact (h.sound.latest lsn p hlog).imp id .inr
  · exact h.sound.latest
  · intro p hp
    obtain ⟨hlog, hfresh⟩ := h.sound.recLsn p hp
    exact ⟨hlog, fun left hleft => hfresh left (hsurvives hleft)⟩
  · intro w hw
    cases hw
  · exact fun p left hleft => h.sound.effects_le p left (hsurvives hleft)
  · intro redoStart hanchor
    have hold : s.Anchored redoStart := by
      rcases hanchor with hframe | ⟨super, hsuper, hanchor⟩
      · exact .inl hframe
      · exact .inr ⟨super, hsurvives hsuper, hanchor⟩
    refine ⟨(h.anchored redoStart hold).1, fun w hw => ?_⟩
    cases hw

-- Changes

theorem frames_setFrame (s : CheckpointState) (p : Nat) (frame : CheckpointFrame) (q : Nat) :
    (s.setFrame p frame).frames q = if q = p then frame else s.frames q := by
  dsimp only [setFrame]
  rw [Function.update_apply]

theorem mem_resident_setFrame (s : CheckpointState) (p : Nat) (frame : CheckpointFrame) (q : Nat) :
    q ∈ (s.setFrame p frame).resident ↔ q = p ∨ q ∈ s.resident := by
  dsimp only [setFrame]
  split_ifs with hp
  · refine ⟨.inr, ?_⟩
    rintro (rfl | hq)
    · exact hp
    · exact hq
  · rw [mem_orderedInsert]

theorem Sound.setFrame (h : s.Sound) (p : Nat)
    (heffects : frame.image.effects = (s.frames p).image.effects) (hdirty : frame.dirty = true)
    (hrec : frame.recLsn = (s.frames p).recLsn) : (s.setFrame p frame).Sound := by
  have heffects' : ∀ q, ((s.setFrame p frame).frames q).image.effects =
      (s.frames q).image.effects := by
    intro q
    rw [frames_setFrame]
    split_ifs with hq
    · exact hq ▸ heffects
    · rfl
  have hrec' : ∀ q, ((s.setFrame p frame).frames q).recLsn = (s.frames q).recLsn := by
    intro q
    rw [frames_setFrame]
    split_ifs with hq
    · exact hq ▸ hrec
    · rfl
  have hcover : ∀ q lsn, s.Covers q lsn → (s.setFrame p frame).Covers q lsn := by
    intro q lsn hq
    refine ⟨?_, hrec' q ▸ hq.2⟩
    rw [frames_setFrame]
    split_ifs
    · exact hdirty
    · exact hq.1
  refine ⟨fun lsn q hlog => heffects' q ▸ h.framed lsn q hlog, h.logged_le, ?_, ?_, ?_, ?_, ?_,
    h.unsynced, h.effects_le, fun q => heffects' q ▸ h.frame_le q⟩
  · intro lsn q hlog left hleft
    exact (h.missing lsn q hlog left hleft).imp id fun hc => hc.imp id (hcover q lsn)
  · exact fun lsn q hlog => (h.latest lsn q hlog).imp id (hcover q lsn)
  · intro q hq
    rw [hrec' q]
    rw [frames_setFrame] at hq
    split_ifs at hq with hp
    · rw [hdirty] at hq
      cases hq
    · exact h.clean q hq
  · intro q hq
    rw [mem_resident_setFrame]
    rw [frames_setFrame] at hq
    split_ifs at hq with hp
    · exact .inl hp
    · exact .inr (h.resident q hq)
  · intro q hq
    rw [hrec' q] at hq ⊢
    exact h.recLsn q hq

theorem Behind.setFrame (h : s.Behind redoStart) (p : Nat)
    (hrec : frame.recLsn = (s.frames p).recLsn) : (s.setFrame p frame).Behind redoStart := by
  refine ⟨h.1, fun q => ?_⟩
  rw [frames_setFrame]
  split_ifs with hq
  · rw [hrec]
    exact h.2 p
  · exact h.2 q

theorem Inv.touch (h : s.Inv) (p : Nat) : (s.touch p).Inv where
  sound := h.sound.setFrame p rfl rfl rfl
  anchored redoStart hanchor := by
    have hold : s.Anchored redoStart := by
      refine hanchor.imp (fun hframe => ?_) id
      dsimp only [CheckpointState.touch] at hframe
      rw [frames_setFrame] at hframe
      split_ifs at hframe with hp
      · exact hp ▸ hframe
      · exact hframe
    obtain ⟨hbehind, hwrites⟩ := h.anchored redoStart hold
    exact ⟨hbehind.setFrame p rfl, hwrites⟩
  checkpointed c hc := (h.checkpointed c hc).setFrame p rfl

theorem frames_change (s : CheckpointState) (p lsn q : Nat) :
    (s.change p lsn).frames q = if q = p then
      ⟨{ (s.frames p).image with effects := lsn :: (s.frames p).image.effects }, true,
        if (s.frames p).recLsn = 0 then lsn else (s.frames p).recLsn⟩
      else s.frames q :=
  frames_setFrame s p _ q

theorem image_change (s : CheckpointState) (p lsn q : Nat) :
    ((s.change p lsn).frames q).image = if q = p then
      { (s.frames p).image with effects := lsn :: (s.frames p).image.effects }
      else (s.frames q).image := by
  rw [frames_change]
  by_cases hq : q = p
  · rw [if_pos hq, if_pos hq]
  · rw [if_neg hq, if_neg hq]

theorem recLsn_change (h : s.lastLsn < lsn) (p : Nat) : ((s.change p lsn).frames p).dirty = true ∧
    ((s.change p lsn).frames p).recLsn ≠ 0 ∧
      (((s.change p lsn).frames p).recLsn = lsn ∧ (s.frames p).recLsn = 0 ∨
        ((s.change p lsn).frames p).recLsn = (s.frames p).recLsn) := by
  rw [frames_change, if_pos rfl]
  by_cases hzero : (s.frames p).recLsn = 0
  · dsimp only
    rw [if_pos hzero]
    exact ⟨rfl, by omega, .inl ⟨rfl, hzero⟩⟩
  · dsimp only
    rw [if_neg hzero]
    exact ⟨rfl, hzero, .inr rfl⟩

theorem Sound.change (h : s.Sound) (hlsn : s.lastLsn < lsn) (p : Nat) :
    (s.change p lsn).Sound := by
  obtain ⟨hdirty, hne, hrec⟩ := recLsn_change hlsn p
  have hother : ∀ q, q ≠ p → (s.change p lsn).frames q = s.frames q := fun q hq => by
    rw [frames_change, if_neg hq]
  have hle : ((s.change p lsn).frames p).recLsn ≤ lsn := by
    rcases hrec with ⟨heq, -⟩ | heq
    · exact Nat.le_of_eq heq
    · rw [heq] at hne ⊢
      have hlog := h.logged_le _ _ (h.recLsn p hne).1
      omega
  have hcover : ∀ q l, s.Covers q l → (s.change p lsn).Covers q l := by
    intro q l hq
    by_cases heq : q = p
    · subst heq
      refine ⟨hdirty, hne, ?_⟩
      rcases hrec with ⟨-, hzero⟩ | hsame
      · exact absurd hzero hq.2.1
      · rw [hsame]
        exact hq.2.2
    · exact hq.of_frame (hother q heq)
  have hnew : (s.change p lsn).Covers p lsn := ⟨hdirty, hne, hle⟩
  have hfresh : ∀ q left, s.disk.Survives q left → lsn ∉ left.image.effects := by
    intro q left hleft hin
    have hold := h.effects_le q left hleft lsn hin
    omega
  have hlast : (s.change p lsn).lastLsn = lsn := rfl
  refine ⟨?_, ?_, ?_, ?_, ?_, ?_, ?_, ?_, ?_, ?_⟩
  · intro l q hlog
    rw [image_change]
    rcases mem_cons.mp hlog with heq | hold
    · cases heq
      rw [if_pos rfl]
      exact mem_cons_self
    · split_ifs with hq
      · exact mem_cons_of_mem _ (hq ▸ h.framed l q hold)
      · exact h.framed l q hold
  · intro l q hlog
    rcases mem_cons.mp hlog with heq | hold
    · exact Nat.le_of_eq (Prod.mk.inj heq).1
    · have hle' := h.logged_le l q hold
      omega
  · intro l q hlog left hleft
    rcases mem_cons.mp hlog with heq | hold
    · cases heq
      exact .inr (.inr hnew)
    · exact (h.missing l q hold left hleft).imp id fun hc => hc.imp id (hcover q l)
  · intro l q hlog
    rcases mem_cons.mp hlog with heq | hold
    · cases heq
      exact .inr hnew
    · exact (h.latest l q hold).imp id (hcover q l)
  · intro q hq
    by_cases heq : q = p
    · subst heq
      rw [hdirty] at hq
      cases hq
    · rw [hother q heq] at hq ⊢
      exact h.clean q hq
  · intro q hq
    have hres : (s.change p lsn).resident =
        (s.setFrame p ((s.change p lsn).frames p)).resident := rfl
    rw [hres, mem_resident_setFrame]
    by_cases heq : q = p
    · exact .inl heq
    · rw [hother q heq] at hq
      exact .inr (h.resident q hq)
  · intro q hq
    by_cases heq : q = p
    · subst heq
      rcases hrec with ⟨hnewRec, -⟩ | hsame
      · rw [hnewRec]
        exact ⟨mem_cons_self, hfresh q⟩
      · rw [hsame] at hne ⊢
        obtain ⟨hlog, hout⟩ := h.recLsn q hne
        exact ⟨mem_cons_of_mem _ hlog, hout⟩
    · rw [hother q heq] at hq ⊢
      obtain ⟨hlog, hout⟩ := h.recLsn q hq
      exact ⟨mem_cons_of_mem _ hlog, hout⟩
  · intro w hw hzero
    obtain ⟨hlog, hout⟩ := h.unsynced w hw hzero
    exact ⟨mem_cons_of_mem _ hlog, hout⟩
  · intro q left hleft l hin
    have hle' := h.effects_le q left hleft l hin
    omega
  · intro q l hin
    rw [image_change] at hin
    split_ifs at hin with hq
    · rcases mem_cons.mp hin with rfl | hold
      · exact Nat.le_refl _
      · have hle' := h.frame_le p l hold
        omega
    · have hle' := h.frame_le q l hin
      omega

theorem Behind.change (h : s.Behind redoStart) (hlsn : s.lastLsn < lsn) (p : Nat) :
    (s.change p lsn).Behind redoStart := by
  have hstart := h.1
  refine ⟨Nat.le_of_lt (Nat.lt_of_le_of_lt hstart hlsn), fun q => ?_⟩
  by_cases hq : q = p
  · subst hq
    rcases (recLsn_change hlsn q).2.2 with ⟨hnew, -⟩ | hsame
    · rw [hnew]
      exact .inr (by omega)
    · rw [hsame]
      exact h.2 q
  · rw [frames_change, if_neg hq]
    exact h.2 q

theorem Inv.change (h : s.Inv) (hlsn : s.lastLsn < lsn) (p : Nat) : (s.change p lsn).Inv where
  sound := h.sound.change hlsn p
  anchored redoStart hanchor := by
    have hold : s.Anchored redoStart := by
      refine hanchor.imp (fun hframe => ?_) id
      rw [image_change] at hframe
      split_ifs at hframe with hp
      · exact hp ▸ hframe
      · exact hframe
    obtain ⟨hbehind, hwrites⟩ := h.anchored redoStart hold
    exact ⟨hbehind.change hlsn p, hwrites⟩
  checkpointed c hc := (h.checkpointed c hc).change hlsn p

-- The checkpoint

theorem redoStartOf_le (dirty : List (Nat × Nat)) (floorLsn : Nat) :
    redoStartOf floorLsn dirty ≤ floorLsn ∧
      ∀ page ∈ dirty, page.2 = 0 ∨ redoStartOf floorLsn dirty ≤ page.2 := by
  induction dirty generalizing floorLsn with
  | nil => exact ⟨Nat.le_refl _, fun page hin => by cases hin⟩
  | cons first rest ih =>
    unfold redoStartOf
    rw [foldl_cons]
    by_cases hzero : first.2 = 0
    · rw [if_neg (not_not_intro hzero)]
      obtain ⟨hle, hall⟩ := ih floorLsn
      refine ⟨hle, fun page hin => ?_⟩
      rcases mem_cons.mp hin with rfl | hrest
      · exact .inl hzero
      · exact hall page hrest
    · rw [if_pos hzero]
      obtain ⟨hle, hall⟩ := ih (min floorLsn first.2)
      unfold redoStartOf at hle
      refine ⟨by omega, fun page hin => ?_⟩
      rcases mem_cons.mp hin with rfl | hrest
      · exact .inr (by omega)
      · exact hall page hrest

theorem Inv.logged (h : s.Inv) (hlsn : s.lastLsn < lsn) :
    ({ s with lastLsn := lsn } : CheckpointState).Inv where
  sound := { h.sound with
    logged_le := fun l p hlog => Nat.le_of_lt (Nat.lt_of_le_of_lt (h.sound.logged_le l p hlog) hlsn)
    effects_le := fun p left hleft l hin =>
      Nat.le_of_lt (Nat.lt_of_le_of_lt (h.sound.effects_le p left hleft l hin) hlsn)
    frame_le := fun p l hin =>
      Nat.le_of_lt (Nat.lt_of_le_of_lt (h.sound.frame_le p l hin) hlsn) }
  anchored redoStart hanchor := by
    obtain ⟨⟨hle, hframes⟩, hwrites⟩ := h.anchored redoStart hanchor
    exact ⟨⟨Nat.le_of_lt (Nat.lt_of_le_of_lt hle hlsn), hframes⟩, hwrites⟩
  checkpointed c hc := by
    obtain ⟨hle, hframes⟩ := h.checkpointed c hc
    exact ⟨Nat.le_of_lt (Nat.lt_of_le_of_lt hle hlsn), hframes⟩

theorem Inv.setProgress (h : s.Inv) {progress : Option CheckpointProgress}
    (hprogress : ∀ c, progress = some c → s.Behind c.redoStart) :
    ({ s with checkpoint := progress } : CheckpointState).Inv where
  sound := { h.sound with }
  anchored := h.anchored
  checkpointed := hprogress

theorem Inv.startCheckpoint (h : s.Inv) {beginLsn : Nat} (hlsn : s.lastLsn < beginLsn) :
    (s.startCheckpoint beginLsn).Inv := by
  refine (h.logged hlsn).setProgress fun c hc => ?_
  cases hc
  obtain ⟨hle, hall⟩ := redoStartOf_le s.dirtyTable beginLsn
  refine ⟨hle, fun p => ?_⟩
  by_cases hdirty : (s.frames p).dirty = true
  · have hin : p ∈ s.resident.filter fun p => (s.frames p).dirty :=
      mem_filter.mpr ⟨h.sound.resident p hdirty, hdirty⟩
    exact hall (p, (s.frames p).recLsn) (mem_map_of_mem hin)
  · exact .inl (h.sound.clean p (Bool.not_eq_true _ ▸ hdirty))

theorem checkpoint_writePages (s : CheckpointState) (pageIds : List Nat) :
    (s.writePages pageIds).checkpoint = s.checkpoint := by
  induction pageIds generalizing s with
  | nil => rfl
  | cons p rest ih => exact ih (s.writePage p)

theorem Inv.flushPages (h : s.Inv) (pageIds : List Nat) (mapsDirty : Bool) (e : FlushEnd) :
    (s.flushPages pageIds mapsDirty e).1.Inv ∧
      (s.flushPages pageIds mapsDirty e).1.checkpoint = s.checkpoint := by
  unfold CheckpointState.flushPages
  cases e with
  | writeFailed taken => exact ⟨h.writePages _, checkpoint_writePages s _⟩
  | syncFailed => exact ⟨h.writePages _, checkpoint_writePages s _⟩
  | done =>
    dsimp only
    split_ifs
    · exact ⟨h.writePages _, checkpoint_writePages s _⟩
    · exact ⟨(h.writePages _).syncDisk, checkpoint_writePages s _⟩

theorem Inv.syncStore (h : s.Inv) (e : FlushEnd) :
    (s.syncStore e).1.Inv ∧ (s.syncStore e).1.checkpoint = s.checkpoint := by
  unfold CheckpointState.syncStore
  cases e with
  | writeFailed taken => exact ⟨h.writePages _, checkpoint_writePages s _⟩
  | syncFailed => exact ⟨h.writePages _, checkpoint_writePages s _⟩
  | done => exact ⟨(h.writePages _).syncDisk, checkpoint_writePages s _⟩

theorem Inv.stepCheckpoint (h : s.Inv) (hc : s.checkpoint = some c) (pagesPerStep : Nat)
    (mapsDirty : Bool) (e : FlushEnd) : (s.stepCheckpoint c pagesPerStep mapsDirty e).Inv := by
  unfold CheckpointState.stepCheckpoint
  by_cases hpending : c.pending = []
  · rw [if_pos hpending]
    exact h
  · rw [if_neg hpending]
    obtain ⟨hinv, hsame⟩ := h.flushPages (c.pending.take pagesPerStep) mapsDirty e
    rcases hout : s.flushPages (c.pending.take pagesPerStep) mapsDirty e with ⟨s', flushed⟩
    rw [hout] at hinv hsame
    dsimp only at hinv hsame ⊢
    split_ifs
    · apply hinv.setProgress
      intro c' hc'
      cases hc'
      exact hinv.checkpointed c (hsame.trans hc)
    · exact hinv

/-- **The superblock gets its anchor**, where no unsynced write is older than the redo start. -/
theorem Inv.publish (h : s.Inv) (hbehind : s.Behind redoStart)
    (hwrites : ∀ w ∈ s.disk.unsynced, w.2.recLsn = 0 ∨ redoStart ≤ w.2.recLsn) (e : FlushEnd) :
    (s.publish redoStart e).1.Inv ∧ (s.publish redoStart e).1.checkpoint = s.checkpoint := by
  unfold CheckpointState.publish
  apply Inv.syncStore
  refine ⟨h.sound.setFrame _ rfl rfl rfl, fun r hanchor => ?_, fun c hc => ?_⟩
  · rcases hanchor with hframe | hdisk
    · rw [frames_setFrame, if_pos rfl] at hframe
      cases hframe
      exact ⟨hbehind.setFrame _ rfl, hwrites⟩
    · obtain ⟨hold, hwrites'⟩ := h.anchored r (.inr hdisk)
      exact ⟨hold.setFrame _ rfl, hwrites'⟩
  · exact (h.checkpointed c hc).setFrame _ rfl

theorem Inv.completeCheckpoint (h : s.Inv) {endLsn : Nat} (hc : s.checkpoint = some c)
    (hlsn : s.lastLsn < endLsn) (e : CompleteEnd) (hok : PublishesSynced s (.complete endLsn e)) :
    (s.completeCheckpoint c endLsn e).Inv := by
  have hlogged := h.logged hlsn
  cases e with
  | notDurable => exact hlogged
  | publish e =>
    obtain ⟨hinv, hsame⟩ := hlogged.publish (hlogged.checkpointed c hc) (hok c hc) e
    dsimp only [CheckpointState.completeCheckpoint]
    rcases hout : ({ s with lastLsn := endLsn } : CheckpointState).publish c.redoStart e with
      ⟨s', published⟩
    rw [hout] at hinv hsame
    dsimp only at hinv hsame ⊢
    split_ifs
    · exact hinv.setProgress fun c' hc' => by cases hc'
    · exact hinv

-- Runs

/-- A publish of synced work keeps the anchor behind the data. -/
theorem Inv.step (h : s.Inv) {a : CheckpointAction} (hok : PublishesSynced s a)
    (hs : checkpointStep s a = some s') : s'.Inv := by
  cases a with
  | change pageId lsn =>
    dsimp only [checkpointStep] at hs
    split_ifs at hs with hguard
    cases hs
    exact h.change hguard.1 pageId
  | touch pageId =>
    cases hs
    exact h.touch pageId
  | drain queued taken =>
    cases hs
    exact h.writePages _
  | syncStore e =>
    cases hs
    exact (h.syncStore e).1
  | start beginLsn =>
    dsimp only [checkpointStep] at hs
    split_ifs at hs with hguard
    cases hs
    exact h.startCheckpoint hguard.1
  | step pagesPerStep mapsDirty e =>
    rcases hc : s.checkpoint with _ | c
    · simp only [checkpointStep, hc] at hs
      cases hs
    · simp only [checkpointStep, hc] at hs
      cases hs
      exact h.stepCheckpoint hc pagesPerStep mapsDirty e
  | complete endLsn e =>
    rcases hc : s.checkpoint with _ | c
    · simp only [checkpointStep, hc] at hs
      cases hs
    · simp only [checkpointStep, hc] at hs
      split_ifs at hs with hguard
      cases hs
      exact h.completeCheckpoint hc hguard.1 e hok

theorem inv_of_mounted (h : Mounted s) : s.Inv := by
  have hnone : ∀ w, w ∉ s.disk.unsynced := fun w hw => by
    rw [h.synced] at hw
    cases hw
  have hread : ∀ p, s.disk.latest p = s.disk.durable p := fun p => by
    unfold CachedDisk.latest
    rw [h.synced]
    rfl
  have hsurvives : ∀ p left, s.disk.Survives p left → left = s.disk.durable p := by
    rintro p left (hold | hnew)
    · exact hold.symm
    · exact absurd hnew (hnone _)
  refine ⟨⟨?_, ?_, ?_, ?_, fun p _ => (h.clean p).2, ?_, ?_, ?_, ?_, ?_⟩, ?_, ?_⟩
  · intro lsn p hlog
    rw [h.frames]
    exact h.logged lsn p hlog
  · exact fun lsn p hlog => h.lsns p lsn (h.logged lsn p hlog)
  · intro lsn p hlog left hleft
    rw [hsurvives p left hleft]
    exact .inl (h.logged lsn p hlog)
  · intro lsn p hlog
    rw [hread]
    exact .inl (h.logged lsn p hlog)
  · intro p hp
    rw [(h.clean p).1] at hp
    cases hp
  · exact fun p hp => absurd (h.clean p).2 hp
  · exact fun w hw => absurd hw (hnone w)
  · intro p left hleft
    rw [hsurvives p left hleft]
    exact h.lsns p
  · intro p
    rw [h.frames]
    exact h.lsns p
  · intro redoStart hanchor
    have hdurable : (s.disk.durable kSuperBlockPageId).image.anchor = some redoStart := by
      rcases hanchor with hframe | ⟨super, hsuper, hanchor⟩
      · rw [h.frames] at hframe
        exact hframe
      · rw [hsurvives _ super hsuper] at hanchor
        exact hanchor
    exact ⟨⟨h.anchor redoStart hdurable, fun p => .inl (h.clean p).2⟩,
      fun w hw => absurd hw (hnone w)⟩
  · intro c hc
    rw [h.idle] at hc
    cases hc

-- An anchor over an unsynced write

theorem image_writePage (s : CheckpointState) (p q : Nat) :
    ((s.writePage p).frames q).image = (s.frames q).image := by
  rw [frames_writePage]
  split_ifs with hq
  · rw [hq]
  · rfl

theorem writePages_spec (s : CheckpointState) (pageIds : List Nat) :
    (s.writePages pageIds).log = s.log ∧
      (s.writePages pageIds).disk.durable = s.disk.durable ∧
      (∀ w ∈ s.disk.unsynced, w ∈ (s.writePages pageIds).disk.unsynced) ∧
      ∀ p ∈ pageIds, ∃ w, (p, w) ∈ (s.writePages pageIds).disk.unsynced ∧
        w.image = (s.frames p).image := by
  induction pageIds generalizing s with
  | nil => exact ⟨rfl, rfl, fun w hw => hw, fun p hp => by cases hp⟩
  | cons first rest ih =>
    obtain ⟨hlog, hdurable, hkeep, hwritten⟩ := ih (s.writePage first)
    refine ⟨hlog, hdurable, fun w hw => hkeep w (mem_cons_of_mem _ hw), fun p hp => ?_⟩
    rcases mem_cons.mp hp with rfl | hrest
    · exact ⟨_, hkeep _ mem_cons_self, rfl⟩
    · obtain ⟨w, hw, himage⟩ := hwritten p hrest
      exact ⟨w, hw, himage.trans (image_writePage s first p)⟩

/-- The superblock is out and the sync has not come: a write older than the redo start may be lost
    and the anchor kept. -/
theorem Inv.not_anchorBehind (h : s.Inv) {w : Nat × PageWrite} (hw : w ∈ s.disk.unsynced)
    (hne : w.2.recLsn ≠ 0) (hold : w.2.recLsn < redoStart) :
    ¬ AnchorBehind (s.publish redoStart .syncFailed).1 := by
  intro hbehind
  obtain ⟨hlog, hout⟩ := h.sound.unsynced w hw hne
  unfold CheckpointState.publish CheckpointState.syncStore at hbehind
  dsimp only at hbehind
  let frame : CheckpointFrame := { s.frames kSuperBlockPageId with
    image := { (s.frames kSuperBlockPageId).image with anchor := some redoStart }
    dirty := true }
  let s1 := s.setFrame kSuperBlockPageId frame
  have hframe : s1.frames kSuperBlockPageId = frame := by
    rw [frames_setFrame, if_pos rfl]
  obtain ⟨hlog', hdurable, -, hwritten⟩ := writePages_spec s1 (s1.toWrite s1.resident)
  have hresident : kSuperBlockPageId ∈ s1.resident :=
    (mem_resident_setFrame s _ _ _).mpr (.inl rfl)
  have hsuper : kSuperBlockPageId ∈ s1.toWrite s1.resident := by
    refine mem_filter.mpr ⟨hresident, decide_eq_true ⟨hresident, ?_⟩⟩
    rw [hframe]
  obtain ⟨super, hin, himage⟩ := hwritten _ hsuper
  have hanchor : super.image.anchor = some redoStart := by
    rw [himage, hframe]
  refine hout (hbehind super redoStart (.inr hin) hanchor w.1 _ (.inl ?_) w.2.recLsn ?_ hold)
  · exact congrFun hdurable w.1
  · rw [hlog']
    exact hlog

end CheckpointState

open CheckpointState

/-- **Anchors stay behind the data in every run that publishes over synced writes**, whatever a
    crash keeps of the device's cache; and where a publish meets an unsynced write that is older
    than its redo start, a crash before its sync may leave an anchor that runs ahead. -/
theorem anchors_behind_data (mounted s : CheckpointState) (hmounted : Mounted mounted)
    (hrun : Reach checkpointStep PublishesSynced mounted s) :
    AnchorBehind s ∧ ∀ endLsn s',
      checkpointStep s (.complete endLsn (.publish .syncFailed)) = some s' →
        (AnchorBehind s' ↔ PublishesSynced s (.complete endLsn (.publish .syncFailed))) := by
  have hinv : s.Inv := hrun.invariant (inv_of_mounted hmounted) fun a h hok hs => h.step hok hs
  refine ⟨hinv.anchorBehind, fun endLsn s' hs => ⟨fun hbehind c hc w hw => ?_, fun hok => ?_⟩⟩
  · by_contra hold
    rw [not_or, Nat.not_le] at hold
    simp only [checkpointStep, hc] at hs
    split_ifs at hs with hguard
    cases hs
    exact (hinv.logged hguard.1).not_anchorBehind hw hold.1 hold.2 hbehind
  · exact (hinv.step hok hs).anchorBehind

/-- An empty store, just mounted. -/
def freshStore : CheckpointState :=
  ⟨0, [], [], fun _ => {}, ⟨fun _ => ⟨{}, 0⟩, []⟩, none⟩

theorem freshStore_mounted : Mounted freshStore where
  clean _ := ⟨rfl, rfl⟩
  synced := rfl
  frames _ := rfl
  logged _ _ h := by cases h
  lsns _ _ h := by cases h
  anchor _ h := by cases h
  idle := rfl

/-- A page is changed and flushed by the checkpoint, which syncs it. -/
def flushedCheckpoint : List CheckpointAction :=
  [.change 200 100, .start 150, .step 8 false .done, .complete 300 (.publish .done)]

/-- A check that implies `PublishesSynced`. -/
def publishCheck (s : CheckpointState) : CheckpointAction → Bool
  | .complete _ (.publish _) => s.disk.unsynced.isEmpty
  | _ => true

theorem anchors_behind_data_flushed :
    ∃ s, Reach checkpointStep PublishesSynced freshStore s ∧ AnchorBehind s ∧
      (s.disk.durable kSuperBlockPageId).image.anchor = some 100 := by
  have hguard : ∀ s a, publishCheck s a = true → PublishesSynced s a := by
    intro s a h
    rcases a with _ | _ | _ | _ | _ | _ | ⟨endLsn, _ | e⟩
    case complete.publish =>
      intro c hc w hw
      rw [isEmpty_iff.mp h] at hw
      cases hw
    all_goals exact trivial
  have hend : (runList (guardStep publishCheck checkpointStep) flushedCheckpoint freshStore).any
      (fun s => decide ((s.disk.durable kSuperBlockPageId).image.anchor = some 100)) = true := by
    decide +kernel
  obtain ⟨s, hrun, hanchor⟩ := exists_reach_of_runList publishCheck hguard _ _ _ hend
  exact ⟨s, hrun, (anchors_behind_data freshStore s freshStore_mounted hrun).1,
    of_decide_eq_true hanchor⟩

/-- A page is changed and drained, so the checkpoint finds nothing to flush. -/
def drainedCheckpoint : List CheckpointAction :=
  [.change 200 100, .drain [200] 1, .start 150, .complete 300 (.publish .syncFailed)]

/-- The crash keeps the superblock's write and loses the page's. -/
theorem anchorAheadOfDrain :
    ∃ s, Reach checkpointStep (fun _ _ => True) freshStore s ∧ ¬ AnchorBehind s := by
  have hend : (runList checkpointStep drainedCheckpoint freshStore).any (fun s =>
      decide ((kSuperBlockPageId, ⟨⟨[], some 150⟩, 0⟩) ∈ s.disk.unsynced) &&
        (decide (s.disk.durable 200 = ⟨⟨[], none⟩, 0⟩) && decide ((100, 200) ∈ s.log))) = true := by
    decide +kernel
  obtain ⟨s, hs, hleft⟩ := (Option.any_eq_true _ _).mp hend
  obtain ⟨hsuper, hrest⟩ := Bool.and_eq_true_iff.mp hleft
  obtain ⟨hpage, hlog⟩ := Bool.and_eq_true_iff.mp hrest
  refine ⟨s, reach_of_runList (fun _ _ _ => trivial) hs, fun hbehind => ?_⟩
  have hlost := hbehind _ 150 (.inr (of_decide_eq_true hsuper)) rfl 200 _
    (.inl (of_decide_eq_true hpage)) 100 (of_decide_eq_true hlog) (by decide)
  cases hlost

end Kds.Wal
