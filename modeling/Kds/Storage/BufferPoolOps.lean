/-
  Kds.Storage.BufferPoolOps

  What the calls that change no page do to the pool: at every page the cell of frame and device
  changes quietly, no pin is lost, and what goes out is covered by the log.
-/

import Kds.Storage.BufferPool

namespace Kds.Storage.Pool

open Lib PageAlloc

namespace DevicePageStore

variable {s s' s'' : DevicePageStore} {p q : PageId} {frame : Frame} {frame' : Frame}

-- Cells

/-- A page as the pool has it: in a frame, and on the device. -/
def cell (s : DevicePageStore) (p : PageId) : CachedCell Page :=
  ⟨(s.frames.lookup p).map fun frame => ⟨frame.bytes, frame.dirty⟩, s.device.pages p⟩

/-- A read off the device takes these bytes. -/
def Intact (s : DevicePageStore) (p : PageId) (page : Page) : Prop :=
  s.isHeaderless p = true ∨ (page.isAllZero = false ∧ page.verifyPageChecksum = .ok ())

def pins (s : DevicePageStore) (p : PageId) : Nat :=
  match s.frames.lookup p with
  | none => 0
  | some frame => frame.pins

/-- An id whose page nobody has and no read gives. -/
def Unwritten (s : DevicePageStore) (p : PageId) : Prop :=
  s.frames.lookup p = none ∧
    (s.device.pageCapacity ≤ p ∨
      (s.isHeaderless p = false ∧ (s.device.pages p).isAllZero = true))

/-- **The log first**: what left with a page_lsn is covered by the durable point of that moment. -/
def Covered (s : DevicePageStore) : Prop :=
  ∀ w ∈ s.written, w.headered = true → w.image.getPageLsn ≠ 0 → w.image.getPageLsn < w.durableLsn

@[simp] theorem lookup_setFrame_self (s : DevicePageStore) (p : PageId) (frame : Frame) :
    (s.setFrame p frame).frames.lookup p = some frame :=
  AList.lookup_insert _

theorem lookup_setFrame_of_ne (frame : Frame) (h : q ≠ p) :
    (s.setFrame p frame).frames.lookup q = s.frames.lookup q :=
  AList.lookup_insert_ne h

@[simp] theorem lookup_dropFrame_self (s : DevicePageStore) (p : PageId) :
    (s.dropFrame p).frames.lookup p = none :=
  AList.lookup_erase _ _

theorem lookup_dropFrame_of_ne (h : q ≠ p) :
    (s.dropFrame p).frames.lookup q = s.frames.lookup q :=
  AList.lookup_erase_ne h

theorem lookup_modifyFrame (s : DevicePageStore) (p : PageId) (f : Frame → Frame) (q : PageId) :
    (s.modifyFrame p f).frames.lookup q =
      if q = p then (s.frames.lookup q).map f else s.frames.lookup q := by
  unfold modifyFrame
  split_ifs with h
  · subst h
    cases hq : s.frames.lookup q with
    | none => exact hq
    | some frame => exact lookup_setFrame_self ..
  · cases hp : s.frames.lookup p with
    | none => rfl
    | some frame => exact lookup_setFrame_of_ne _ h

/-- What a change of frames leaves as it is. -/
structure SameBut (s s' : DevicePageStore) : Prop where
  maps : s'.maps = s.maps
  mapPages : s'.mapPages = s.mapPages
  granted : s'.granted = s.granted
  capacity : s'.device.pageCapacity = s.device.pageCapacity

theorem SameBut.refl (s : DevicePageStore) : SameBut s s := ⟨rfl, rfl, rfl, rfl⟩

theorem SameBut.trans (h : SameBut s s') (h' : SameBut s' s'') : SameBut s s'' :=
  ⟨h'.maps.trans h.maps, h'.mapPages.trans h.mapPages, h'.granted.trans h.granted,
    h'.capacity.trans h.capacity⟩

theorem SameBut.isAllocated (h : SameBut s s') (p : PageId) :
    s'.isAllocated p = s.isAllocated p := by
  unfold DevicePageStore.isAllocated owns
  rw [h.maps, h.granted]

theorem SameBut.isHeaderless (h : SameBut s s') (p : PageId) :
    s'.isHeaderless p = s.isHeaderless p := by
  unfold DevicePageStore.isHeaderless
  rw [h.maps, h.isAllocated]

theorem SameBut.stampIfHeadered (h : SameBut s s') (p : PageId) :
    s'.stampIfHeadered p = s.stampIfHeadered p := by
  funext page
  unfold DevicePageStore.stampIfHeadered
  rw [h.isHeaderless]

theorem SameBut.intact (h : SameBut s s') (p : PageId) : s'.Intact p = s.Intact p := by
  funext page
  unfold Intact
  rw [h.isHeaderless]

@[simp] theorem stampIfHeadered_stamp (s : DevicePageStore) (p : PageId) (page : Page) :
    s.stampIfHeadered p (s.stampIfHeadered p page) = s.stampIfHeadered p page := by
  unfold stampIfHeadered
  split_ifs
  · rfl
  · exact page.stampPageChecksum_stamp

theorem intact_stampIfHeadered (s : DevicePageStore) (p : PageId) (page : Page) :
    s.Intact p (s.stampIfHeadered p page) := by
  unfold Intact stampIfHeadered
  split_ifs with h
  · exact .inl h
  · exact .inr ⟨page.isAllZero_stamp, page.verifyPageChecksum_stamp⟩

theorem checkRead_of_intact {page : Page} (h : s.Intact p page) : s.checkRead p page = .ok () := by
  unfold checkRead
  by_cases hless : s.isHeaderless p = true
  · rw [if_pos hless]
  · obtain ⟨hzero, hverify⟩ := h.resolve_left hless
    rw [if_neg hless, if_neg (by rw [hzero]; exact Bool.false_ne_true)]
    exact hverify

theorem not_unwritten_of_checkRead (hcap : ¬ s.device.pageCapacity ≤ p)
    (h : s.checkRead p (s.device.pages p) = .ok ()) : ¬ s.Unwritten p := by
  rintro ⟨-, hun⟩
  obtain ⟨hless, hzero⟩ := hun.resolve_left hcap
  unfold checkRead at h
  rw [if_neg (by rw [hless]; exact Bool.false_ne_true), if_pos hzero] at h
  cases h

-- Calm changes

/-- The device reaches every page in a frame. -/
def Addressable (s : DevicePageStore) : Prop :=
  ∀ p, s.frames.lookup p ≠ none → p < s.device.pageCapacity

/-- A change of the pool in which no user's page changes. -/
structure Calm (s s' : DevicePageStore) : Prop where
  same : SameBut s s'
  addressable : s.Addressable → s'.Addressable
  cells : ∀ p, isMapPageId p = false →
    CachedCell.Quiet (s.stampIfHeadered p) (s.Intact p) (s.cell p) (s'.cell p)
  unwritten : ∀ p, isMapPageId p = false → s.Unwritten p → s'.Unwritten p
  covered : s.Covered → s'.Covered

/-- A calm change that takes and drops no pin. -/
structure Settles (s s' : DevicePageStore) : Prop extends Calm s s' where
  pins : ∀ p, s'.pins p = s.pins p

theorem Calm.refl (s : DevicePageStore) : Calm s s :=
  ⟨.refl s, fun h => h, fun _ _ => .refl _, fun _ _ h => h, fun h => h⟩

theorem Calm.trans (h : Calm s s') (h' : Calm s' s'') : Calm s s'' := by
  refine ⟨h.same.trans h'.same, fun ha => h'.addressable (h.addressable ha), fun p hp => ?_,
    fun p hp hun => ?_, fun hcov => ?_⟩
  · have hcell := h'.cells p hp
    rw [h.same.stampIfHeadered, h.same.intact] at hcell
    exact (h.cells p hp).trans (s.stampIfHeadered_stamp p) hcell
  · exact h'.unwritten p hp (h.unwritten p hp hun)
  · exact h'.covered (h.covered hcov)

theorem Settles.refl (s : DevicePageStore) : Settles s s := ⟨.refl s, fun _ => rfl⟩

theorem Settles.trans (h : Settles s s') (h' : Settles s' s'') : Settles s s'' :=
  ⟨h.toCalm.trans h'.toCalm, fun p => (h'.pins p).trans (h.pins p)⟩

theorem Settles.of_same (hsame : SameBut s s') (hframes : s'.frames = s.frames)
    (hpages : s'.device.pages = s.device.pages) (hwritten : s'.written = s.written) :
    Settles s s' := by
  refine ⟨⟨hsame, fun ha p hp => ?_, fun p _ => ?_, fun p _ hun => ?_, fun hcov => ?_⟩,
    fun p => ?_⟩
  · rw [hframes] at hp
    rw [hsame.capacity]
    exact ha p hp
  · have hcell : s'.cell p = s.cell p := by
      unfold cell
      rw [hframes, hpages]
    rw [hcell]
    exact .refl _
  · unfold Unwritten at hun ⊢
    rw [hframes, hpages, hsame.capacity, hsame.isHeaderless]
    exact hun
  · unfold Covered
    rw [hwritten]
    exact hcov
  · unfold DevicePageStore.pins
    rw [hframes]

theorem Calm.at (hsame : SameBut s s') (hpages : s'.device.pages = s.device.pages)
    (hwritten : s'.written = s.written)
    (hother : ∀ q, q ≠ p → s'.frames.lookup q = s.frames.lookup q)
    (hcell : CachedCell.Quiet (s.stampIfHeadered p) (s.Intact p) (s.cell p) (s'.cell p))
    (hun : ¬ s.Unwritten p) : Calm s s' := by
  refine ⟨hsame, fun ha q hq => ?_, fun q _ => ?_, fun q _ hq => ?_, fun hcov => ?_⟩
  · rw [hsame.capacity]
    by_cases h : q = p
    · subst h
      by_cases hnone : s.frames.lookup q = none
      · exact Nat.lt_of_not_le fun hle => hun ⟨hnone, .inl hle⟩
      · exact ha q hnone
    · rw [hother q h] at hq
      exact ha q hq
  · by_cases h : q = p
    · subst h
      exact hcell
    · have hsame : s'.cell q = s.cell q := by
        unfold cell
        rw [hother q h, hpages]
      rw [hsame]
      exact .refl _
  · by_cases h : q = p
    · subst h
      exact absurd hq hun
    · unfold Unwritten at hq ⊢
      rw [hother q h, hpages, hsame.capacity, hsame.isHeaderless]
      exact hq
  · unfold Covered
    rw [hwritten]
    exact hcov

theorem not_unwritten (h : s.frames.lookup p = some frame) : ¬ s.Unwritten p := by
  rintro ⟨hnone, -⟩
  rw [h] at hnone
  cases hnone

theorem cell_of_lookup (h : s.frames.lookup p = some frame) :
    s.cell p = ⟨some ⟨frame.bytes, frame.dirty⟩, s.device.pages p⟩ := by
  unfold cell
  rw [h]
  rfl

theorem pins_of_lookup (h : s.frames.lookup p = some frame) : s.pins p = frame.pins := by
  unfold pins
  rw [h]

theorem pins_congr (h : s'.frames.lookup p = s.frames.lookup p) : s'.pins p = s.pins p := by
  unfold pins
  rw [h]

theorem Calm.setFrame (h : s.frames.lookup p = some frame) (hbytes : frame'.bytes = frame.bytes)
    (hdirty : frame.dirty = true → frame'.dirty = true) : Calm s (s.setFrame p frame') := by
  have hentry : (s.cell p).entry = some ⟨frame.bytes, frame.dirty⟩ := by rw [cell_of_lookup h]
  have hcell : (s.setFrame p frame').cell p =
      ⟨some ⟨frame.bytes, frame'.dirty⟩, (s.cell p).backing⟩ := by
    rw [cell_of_lookup (lookup_setFrame_self s p frame'), hbytes]
    rfl
  have hsame : SameBut s (s.setFrame p frame') := ⟨rfl, rfl, rfl, rfl⟩
  apply Calm.at hsame rfl rfl (fun q hq => lookup_setFrame_of_ne _ hq) ?_ (not_unwritten h)
  rw [hcell]
  exact .mark hentry hdirty

theorem Settles.setFrame (h : s.frames.lookup p = some frame) (hbytes : frame'.bytes = frame.bytes)
    (hdirty : frame.dirty = true → frame'.dirty = true) (hpins : frame'.pins = frame.pins) :
    Settles s (s.setFrame p frame') := by
  refine ⟨.setFrame h hbytes hdirty, fun q => ?_⟩
  by_cases hq : q = p
  · subst hq
    rw [pins_of_lookup h, pins_of_lookup (lookup_setFrame_self s q frame'), hpins]
  · exact pins_congr (lookup_setFrame_of_ne _ hq)

theorem Settles.dropFrame (h : ∀ frame, s.frames.lookup p = some frame →
    frame.dirty = false ∧ frame.pins = 0) : Settles s (s.dropFrame p) := by
  cases hp : s.frames.lookup p with
  | none =>
    have hsame : ∀ q, (s.dropFrame p).frames.lookup q = s.frames.lookup q := by
      intro q
      by_cases hq : q = p
      · subst hq
        rw [lookup_dropFrame_self, hp]
      · exact lookup_dropFrame_of_ne hq
    refine ⟨⟨⟨rfl, rfl, rfl, rfl⟩, fun ha q hq => ?_, fun q _ => ?_, fun q _ hun => ?_,
      fun hcov => hcov⟩, fun q => ?_⟩
    · rw [hsame] at hq
      exact ha q hq
    · have hcell : (s.dropFrame p).cell q = s.cell q := by
        unfold cell
        rw [hsame]
        rfl
      rw [hcell]
      exact .refl _
    · unfold Unwritten at hun ⊢
      rw [hsame]
      exact hun
    · exact pins_congr (hsame q)
  | some frame =>
    obtain ⟨hclean, hpins⟩ := h frame hp
    have hentry : (s.cell p).entry = some ⟨frame.bytes, frame.dirty⟩ := by rw [cell_of_lookup hp]
    have hcell : (s.dropFrame p).cell p = ⟨none, (s.cell p).backing⟩ := by
      unfold cell
      rw [lookup_dropFrame_self]
      rfl
    refine ⟨?_, fun q => ?_⟩
    · have hsame : SameBut s (s.dropFrame p) := ⟨rfl, rfl, rfl, rfl⟩
      apply Calm.at hsame rfl rfl (fun q hq => lookup_dropFrame_of_ne hq) ?_ (not_unwritten hp)
      rw [hcell]
      exact .drop hentry hclean
    · by_cases hq : q = p
      · subst hq
        rw [pins_of_lookup hp, hpins]
        unfold DevicePageStore.pins
        rw [lookup_dropFrame_self]
      · exact pins_congr (lookup_dropFrame_of_ne hq)

-- The sweep

theorem Settles.sweepFrame (s : DevicePageStore) (p : PageId) : Settles s (s.sweepFrame p).1 := by
  unfold DevicePageStore.sweepFrame
  cases h : s.frames.lookup p with
  | none => exact .refl s
  | some frame =>
    dsimp only
    split_ifs with hpins hclass husage hdirty
    · exact .refl s
    · exact .refl s
    · exact .setFrame h rfl (fun hd => hd) rfl
    · exact .of_same ⟨rfl, rfl, rfl, rfl⟩ rfl rfl rfl
    · exact .of_same ⟨rfl, rfl, rfl, rfl⟩ rfl rfl rfl
    · have hdrop : Settles s (s.dropFrame p) := by
        apply Settles.dropFrame
        intro frame' hframe'
        rw [h] at hframe'
        cases hframe'
        exact ⟨by simpa using hdirty, by simpa using hpins⟩
      exact hdrop.trans (.of_same ⟨rfl, rfl, rfl, rfl⟩ rfl rfl rfl)

theorem Settles.sweep (s : DevicePageStore) (budget : Nat) (order : List PageId) (reclaimed : Nat) :
    Settles s (s.sweep budget order reclaimed).1 := by
  induction order generalizing s reclaimed with
  | nil => exact .refl s
  | cons p rest ih =>
    unfold DevicePageStore.sweep
    split_ifs
    · have hone := Settles.sweepFrame s p
      rcases hout : s.sweepFrame p with ⟨s', _ | _⟩
      · rw [hout] at hone
        exact hone.trans (ih s' _)
      · rw [hout] at hone
        exact hone.trans (ih s' _)
    · exact .refl s

theorem Settles.evictColdFrames (s : DevicePageStore) (budget : Nat) :
    Settles s (s.evictColdFrames budget).1 :=
  .sweep s budget _ 0

theorem Settles.foldl_dropFrame (ids : List PageId) (h : ∀ p ∈ ids, ∀ frame,
    s.frames.lookup p = some frame → frame.dirty = false ∧ frame.pins = 0) :
    Settles s (ids.foldl DevicePageStore.dropFrame s) := by
  induction ids generalizing s with
  | nil => exact .refl s
  | cons p rest ih =>
    refine (Settles.dropFrame (h p List.mem_cons_self)).trans (ih fun q hq frame hframe => ?_)
    by_cases hqp : q = p
    · subst hqp
      rw [lookup_dropFrame_self] at hframe
      cases hframe
    · rw [lookup_dropFrame_of_ne hqp] at hframe
      exact h q (List.mem_cons_of_mem p hq) frame hframe

theorem Settles.evictClean (s : DevicePageStore) (ids : List PageId) :
    Settles s (s.evictClean ids).1 := by
  unfold DevicePageStore.evictClean
  dsimp only
  split
  · exact .refl s
  · next hnone =>
    apply Settles.foldl_dropFrame
    intro p hp frame hframe
    have hok := List.findSome?_eq_none_iff.mp hnone p hp
    rw [hframe] at hok
    dsimp only at hok
    split_ifs at hok with hdirty hpins
    exact ⟨by simpa using hdirty, by simpa using hpins⟩

-- Pins

theorem Calm.modifyFrame (s : DevicePageStore) (p : PageId) {f : Frame → Frame}
    (hbytes : ∀ frame, (f frame).bytes = frame.bytes)
    (hdirty : ∀ frame, frame.dirty = true → (f frame).dirty = true) :
    Calm s (s.modifyFrame p f) := by
  unfold DevicePageStore.modifyFrame
  cases h : s.frames.lookup p with
  | none => exact .refl s
  | some frame => exact .setFrame h (hbytes frame) (hdirty frame)

theorem Calm.pinFrame (s : DevicePageStore) (p : PageId) : Calm s (s.pinFrame p) :=
  .modifyFrame s p (fun _ => rfl) fun _ h => h

theorem Calm.unpinFrame (s : DevicePageStore) (p : PageId) : Calm s (s.unpinFrame p) :=
  .modifyFrame s p (fun _ => rfl) fun _ h => h

theorem Settles.markFrameDirty (s : DevicePageStore) (p : PageId) :
    Settles s (s.markFrameDirty p) := by
  unfold DevicePageStore.markFrameDirty DevicePageStore.modifyFrame
  cases h : s.frames.lookup p with
  | none => exact .refl s
  | some frame => exact .setFrame h rfl (fun _ => rfl) rfl

theorem pins_pinFrame (s : DevicePageStore) (p q : PageId) :
    (s.pinFrame p).pins q =
      if q = p ∧ s.frames.lookup p ≠ none then s.pins q + 1 else s.pins q := by
  unfold pins pinFrame
  rw [lookup_modifyFrame]
  by_cases h : q = p
  · subst h
    cases hq : s.frames.lookup q with
    | none => simp
    | some frame => simp
  · simp [h]

theorem pins_unpinFrame (s : DevicePageStore) (p q : PageId) :
    (s.unpinFrame p).pins q = if q = p then s.pins q - 1 else s.pins q := by
  unfold pins unpinFrame
  rw [lookup_modifyFrame]
  by_cases h : q = p
  · subst h
    cases hq : s.frames.lookup q with
    | none => simp
    | some frame => simp
  · simp [h]

theorem pins_eq_zero (h : s.frames.lookup p = none) : s.pins p = 0 := by
  unfold pins
  rw [h]

theorem lookup_ne_none_of_pins (h : 0 < s.pins p) : s.frames.lookup p ≠ none := by
  intro hnone
  rw [pins_eq_zero hnone] at h
  exact Nat.lt_irrefl 0 h

theorem Settles.sweepExcess (s : DevicePageStore) (p : PageId) : Settles s (s.sweepExcess p) := by
  unfold DevicePageStore.sweepExcess
  split_ifs with h
  · have hsweep := Settles.evictColdFrames (s.pinFrame p)
      (s.frames.keys.length - s.frameBudget)
    refine ⟨(Calm.pinFrame s p).trans (hsweep.toCalm.trans (.unpinFrame _ p)), fun q => ?_⟩
    rw [pins_unpinFrame, hsweep.pins, pins_pinFrame]
    by_cases hq : q = p
    · subst hq
      by_cases hnone : s.frames.lookup q = none
      · simp [hnone, pins_eq_zero hnone]
      · simp [hnone]
    · simp [hq]
  · exact .refl s

-- Reading

theorem exists_claimIfRefused (s : DevicePageStore) (answers : PoolAnswers) (p : PageId)
    (markDirty : Bool) :
    ∃ rights, s.claimIfRefused answers p markDirty = { s with writeRights := rights } := by
  unfold claimIfRefused tryClaimByStamp
  split_ifs
  · exact ⟨_, rfl⟩
  · exact ⟨_, rfl⟩
  · exact ⟨_, rfl⟩
  · exact ⟨_, rfl⟩

theorem Settles.insertFrame (h : s.frames.lookup p = none) (hun : ¬ s.Unwritten p)
    (dirty warm : Bool) : Settles s (s.insertFrame p (s.device.pages p) dirty warm) := by
  have hentry : (s.cell p).entry = none := by
    unfold cell
    rw [h]
    rfl
  have hlook : (s.insertFrame p (s.device.pages p) dirty warm).frames.lookup p = some
      ⟨s.device.pages p, dirty, if warm then 1 else 0, 0, 0⟩ := lookup_setFrame_self ..
  refine ⟨?_, fun q => ?_⟩
  · have hsame : SameBut s (s.insertFrame p (s.device.pages p) dirty warm) := ⟨rfl, rfl, rfl, rfl⟩
    apply Calm.at hsame rfl rfl (fun q hq => lookup_setFrame_of_ne _ hq) ?_ hun
    rw [cell_of_lookup hlook]
    exact .load hentry dirty
  · by_cases hq : q = p
    · subst hq
      rw [pins_eq_zero h, pins_of_lookup hlook]
    · exact pins_congr (lookup_setFrame_of_ne _ hq)

/-- What an accessor did: the pool has settled, and bytes it answers are the page's. -/
structure Read (s : DevicePageStore) (p : PageId) (out : DevicePageStore × StatusOr Page) :
    Prop where
  settles : Settles s out.1
  value : ∀ page, out.2 = .ok page → page = (s.cell p).value

theorem Read.refuse (s : DevicePageStore) (p : PageId) (e : Status) : Read s p (s, .error e) :=
  ⟨.refl s, fun _ h => (by cases h)⟩

theorem cell_value_of_lookup (h : s.frames.lookup p = some frame) :
    (s.cell p).value = frame.bytes := by
  rw [cell_of_lookup h]
  rfl

theorem cell_value_of_none (h : s.frames.lookup p = none) :
    (s.cell p).value = s.device.pages p := by
  unfold cell CachedCell.value
  rw [h]
  rfl

theorem read_faultBytes (h : s.frames.lookup p = none) (answers : PoolAnswers)
    (markDirty bumpUsage : Bool) : Read s p (s.faultBytes answers p markDirty bumpUsage) := by
  unfold faultBytes
  split_ifs with hcap
  · exact .refuse s p _
  · cases hread : answers.read p with
    | some e => exact .refuse s p e
    | none =>
      dsimp only
      cases hcheck : s.checkRead p (s.device.pages p) with
      | error e => exact .refuse s p e
      | ok u =>
        have hun := not_unwritten_of_checkRead hcap hcheck
        refine ⟨(Settles.insertFrame h hun markDirty bumpUsage).trans (.sweepExcess _ p),
          fun page hpage => ?_⟩
        rw [cell_value_of_none h]
        exact (Except.ok.inj hpage).symm

theorem read_accessBytes (s : DevicePageStore) (answers : PoolAnswers) (p : PageId)
    (markDirty bumpUsage : Bool) : Read s p (s.accessBytes answers p markDirty bumpUsage) := by
  unfold accessBytes
  by_cases hwrite : (markDirty && !s.mayWrite p) = true
  · rw [if_pos hwrite]
    exact .refuse s p _
  · rw [if_neg hwrite]
    cases hlook : s.frames.lookup p with
    | none => exact read_faultBytes hlook answers markDirty bumpUsage
    | some frame =>
      refine ⟨.setFrame hlook rfl (fun hd => by simp [hd]) rfl, fun page hpage => ?_⟩
      rw [cell_value_of_lookup hlook]
      exact (Except.ok.inj hpage).symm

theorem read_residentBytes (s : DevicePageStore) (answers : PoolAnswers) (p : PageId)
    (markDirty bumpUsage : Bool) : Read s p (s.residentBytes answers p markDirty bumpUsage) := by
  unfold residentBytes
  obtain ⟨rights, hclaim⟩ := exists_claimIfRefused s answers p markDirty
  rw [hclaim]
  have hsettles : Settles s { s with writeRights := rights } :=
    .of_same ⟨rfl, rfl, rfl, rfl⟩ rfl rfl rfl
  have hread := read_accessBytes { s with writeRights := rights } answers p markDirty bumpUsage
  exact ⟨hsettles.trans hread.settles, hread.value⟩

theorem read_resolve (s : DevicePageStore) (answers : PoolAnswers) (p : PageId) (markDirty : Bool) :
    Read s p (s.resolve answers p markDirty) := by
  unfold resolve
  by_cases hin : s.isAllocated p = true
  · rw [if_pos hin]
    exact read_residentBytes ..
  · rw [if_neg hin]
    exact .refuse s p _

-- The ring

theorem Settles.releaseScanSlot (s : DevicePageStore) (slot : Option PageId) :
    Settles s (s.releaseScanSlot slot) := by
  cases slot with
  | none => exact .refl s
  | some p =>
    unfold DevicePageStore.releaseScanSlot
    dsimp only
    cases h : s.frames.lookup p with
    | none => exact .refl s
    | some frame =>
      dsimp only
      split_ifs with hkept
      · exact .refl s
      · apply Settles.dropFrame
        intro frame' hframe'
        rw [h] at hframe'
        cases hframe'
        simp only [Bool.or_eq_true, decide_eq_true_eq, not_or] at hkept
        obtain ⟨⟨⟨hdirty, hpins⟩, -⟩, -⟩ := hkept
        exact ⟨by simpa using hdirty, by omega⟩

theorem Settles.fetch (s : DevicePageStore) (answers : PoolAnswers) (ring : ScanRing)
    (p : PageId) : Settles s (s.fetch answers ring p).1 := by
  unfold DevicePageStore.fetch
  cases h : s.frames.lookup p with
  | some frame => exact .refl s
  | none =>
    dsimp only
    have hslot := Settles.releaseScanSlot s (ring.slots.getD ring.hand none)
    have hread := read_residentBytes (s.releaseScanSlot (ring.slots.getD ring.hand none)) answers
      p false false
    rcases hout : (s.releaseScanSlot (ring.slots.getD ring.hand none)).residentBytes answers p
      false false with ⟨s', e | bytes⟩
    · rw [hout] at hread
      exact hslot.trans hread.settles
    · rw [hout] at hread
      exact hslot.trans hread.settles

theorem Settles.closeScanRing (s : DevicePageStore) (ring : ScanRing) :
    Settles s (s.closeScanRing ring) := by
  unfold DevicePageStore.closeScanRing
  induction ring.slots generalizing s with
  | nil => exact .refl s
  | cons slot rest ih => exact (Settles.releaseScanSlot s slot).trans (ih _)

end DevicePageStore

end Kds.Storage.Pool
