/-
  Kds.Txn.TrxIdRuns

  No transaction id is issued twice.  Every id below the durable ceiling was carved for one core;
  what a core's window, its pending grant and the grants on their way to it hold was carved for
  it, in this run; and what it issues it takes from its window, in order.
-/

import Kds.Txn.TrxIds
import Kds.Lib.Run

namespace Kds.Txn.TrxIds

-- What the sequences hold

def Peer.Holds (p : Peer) (id : Nat) : Prop := p.window.Holds id ∨ p.pending.Holds id

theorem grant_holds {pending : TrxIdRange} {first count id : Nat}
    (h : (grant pending first count).Holds id) :
    pending.Holds id ∨ TrxIdRange.Holds ⟨first, count⟩ id := by
  unfold grant at h
  split_ifs at h with hzero hnext
  · exact .inl h
  · obtain ⟨hlow, hhigh⟩ := h
    dsimp only at hlow hhigh
    by_cases hid : id < first
    · exact .inl ⟨hlow, by omega⟩
    · exact .inr ⟨by dsimp only; omega, by dsimp only; omega⟩
  · exact .inr h

/-- Of a window and what it turns into: it only moves up, and an id issued between the two was
    in `source`. -/
structure Moves (w w' : Window) (source : Nat → Prop) (answer : StatusOr Nat) : Prop where
  up : w.next ≤ w'.next
  issued : ∀ id, answer = .ok id →
    w.next ≤ id ∧ id < w'.next ∧ id ≤ kMaxTrxId ∧ source id

theorem issue_spec (w : Window) (source : Nat → Prop) (h : source w.next) (hhead : w.Holds w.next) :
    Moves w (issue w).1 source (issue w).2 ∧ (∀ id, (issue w).1.Holds id → w.Holds id) ∧
      (issue w).1.next ≤ w.ceiling ∧ (issue w).1.ceiling = w.ceiling := by
  have hroom : w.next < w.ceiling := hhead.2
  unfold issue
  split_ifs with htop
  · exact ⟨⟨Nat.le_refl _, fun id hid => by cases hid⟩, fun id hid => hid, Nat.le_of_lt hroom, rfl⟩
  · refine ⟨⟨Nat.le_succ _, fun id hid => ?_⟩, fun id hid => ?_, hroom, rfl⟩
    · cases hid
      exact ⟨Nat.le_refl _, Nat.lt_succ_self _, Nat.le_of_not_lt htop, h⟩
    · obtain ⟨hlow, hhigh⟩ := hid
      dsimp only at hlow hhigh
      exact ⟨by omega, hhigh⟩

variable {source : Nat → Prop}

theorem Moves.later {w w' w'' : Window} {answer : StatusOr Nat}
    (hmoves : Moves w' w'' source answer) (hup : w.next ≤ w'.next) : Moves w w'' source answer := by
  refine ⟨Nat.le_trans hup hmoves.up, fun id hid => ?_⟩
  obtain ⟨hlow, hrest⟩ := hmoves.issued id hid
  exact ⟨Nat.le_trans hup hlow, hrest⟩

theorem Moves.stay (w : Window) (e : Status) : Moves w w source (.error e) :=
  ⟨Nat.le_refl _, fun id hid => by cases hid⟩

/-- **`Next` on core 0**: what its window holds afterwards it held before, or was carved now. -/
theorem nextCarved_spec (c : Ceiling) (w : Window) (ended : PersistEnd)
    (hdur : c.durable ≤ c.memory) (hnext : w.next ≤ c.memory) (hceil : w.ceiling ≤ c.memory) :
    let out := nextCarved c w ended
    let source := fun id => w.Holds id ∨ (c.memory ≤ id ∧ id < out.1.durable)
    (c.memory ≤ out.1.memory ∧ c.durable ≤ out.1.durable ∧ out.1.durable ≤ out.1.memory) ∧
      (out.2.1.next ≤ out.1.memory ∧ out.2.1.ceiling ≤ out.1.memory) ∧
      Moves w out.2.1 source out.2.2 ∧ ∀ id, out.2.1.Holds id → source id := by
  dsimp only
  unfold nextCarved
  split_ifs with hspent htop
  · exact ⟨⟨Nat.le_refl _, Nat.le_refl _, hdur⟩, ⟨hnext, hceil⟩, .stay w _, fun id hid => .inl hid⟩
  · obtain ⟨hmem, hkeep, hle, hblock⟩ := carve_spec c kTrxIdBlockSize ended hdur (by decide)
    rcases hcarve : carve c kTrxIdBlockSize ended with ⟨c', e | r⟩
    · rw [hcarve] at hmem hkeep hle
      dsimp only at hmem hkeep hle ⊢
      exact ⟨⟨hmem, hkeep, hle⟩, ⟨by omega, by omega⟩, .stay w _, fun id hid => .inl hid⟩
    · rw [hcarve] at hmem hkeep hle hblock
      dsimp only at hmem hkeep hle hblock ⊢
      obtain ⟨hfirst, hcount, hend, hdone, -⟩ := hblock r rfl
      have hfresh : ∀ id, (install r).Holds id → c.memory ≤ id ∧ id < c'.durable := by
        rintro id ⟨hlow, hhigh⟩
        dsimp only [install] at hlow hhigh
        omega
      have hhead : (install r).Holds (install r).next :=
        ⟨Nat.le_refl _, by dsimp only [install]; omega⟩
      obtain ⟨hmoves, hkept, hbelow, hsame⟩ := issue_spec (install r)
        (fun id => w.Holds id ∨ (c.memory ≤ id ∧ id < c'.durable))
        (.inr (hfresh _ hhead)) hhead
      refine ⟨⟨hmem, hkeep, hle⟩, ⟨?_, ?_⟩, ?_, fun id hid => .inr (hfresh id (hkept id hid))⟩
      · dsimp only [install] at hbelow ⊢
        omega
      · rw [hsame]
        dsimp only [install]
        omega
      · exact hmoves.later (by dsimp only [install]; omega)
  · have hhead : w.Holds w.next := ⟨Nat.le_refl _, by omega⟩
    obtain ⟨hmoves, hkept, hbelow, hsame⟩ := issue_spec w
      (fun id => w.Holds id ∨ (c.memory ≤ id ∧ id < c.durable)) (.inl hhead) hhead
    refine ⟨⟨Nat.le_refl _, Nat.le_refl _, hdur⟩, ⟨?_, ?_⟩, hmoves, fun id hid =>
      .inl (hkept id hid)⟩
    · dsimp only
      omega
    · dsimp only
      rw [hsame]
      exact hceil

theorem nextLeased_spec (p : Peer) :
    Moves p.window (nextLeased p).1.window p.Holds (nextLeased p).2 ∧
      ∀ id, (nextLeased p).1.Holds id → p.Holds id := by
  unfold nextLeased
  split_ifs with hspent htop
  · exact ⟨.stay _ _, fun id hid => hid⟩
  · by_cases hnone : p.pending.count = 0
    · rw [take, if_pos hnone]
      exact ⟨.stay _ _, fun id hid => hid⟩
    · rw [take, if_neg hnone]
      dsimp only
      have hemptied : ∀ id, ¬ TrxIdRange.Holds ⟨0, 0⟩ id := fun id hid => Nat.not_lt_zero id hid.2
      split_ifs with hbelow
      · refine ⟨.stay _ _, fun id hid => ?_⟩
        rcases hid with hwindow | hpending
        · exact .inl hwindow
        · exact absurd hpending (hemptied id)
      · have hhead : (install p.pending).Holds (install p.pending).next :=
          ⟨Nat.le_refl _, by dsimp only [install]; omega⟩
        obtain ⟨hmoves, hkept, -⟩ := issue_spec (install p.pending) p.Holds
          (.inr hhead) hhead
        refine ⟨hmoves.later (by dsimp only [install]; omega), fun id hid => ?_⟩
        rcases hid with hwindow | hpending
        · exact .inr (hkept id hwindow)
        · exact absurd hpending (hemptied id)
  · have hhead : p.window.Holds p.window.next := ⟨Nat.le_refl _, by omega⟩
    obtain ⟨hmoves, hkept, -⟩ := issue_spec p.window p.Holds (.inl hhead) hhead
    exact ⟨hmoves, fun id hid => hid.imp_left (hkept id)⟩

-- The invariant

namespace World

/-- What a core may issue without another carve: its window, its pending grant and the grants on
    their way to it. -/
def Holder (w : World) (core id : Nat) : Prop :=
  (core = 0 ∧ w.core0.Holds id) ∨ (∃ p, w.peers core = some p ∧ p.Holds id) ∨
    ∃ g ∈ w.grants, g.core = core ∧ g.range.Holds id

/-- An id that `core` may come to issue: carved for it, in this run, and durable. -/
def Carved (w : World) (owner : Nat → Nat) (floor core id : Nat) : Prop :=
  owner id = core ∧ floor ≤ id ∧ id < w.ceiling.durable

/-- Core `core`'s place in its own sequence. -/
def nextOf (w : World) (core : Nat) : Nat :=
  if core = 0 then w.core0.next
  else match w.peers core with
    | some p => p.window.next
    | none => 0

/-- **The invariant.**  `owner` says for which core an id was carved; `floor` is the ceiling that
    this run began from. -/
structure Inv (w : World) (owner : Nat → Nat) (floor : Nat) : Prop where
  durableLe : w.ceiling.durable ≤ w.ceiling.memory
  floorLe : floor ≤ w.ceiling.durable
  core0Le : w.core0.next ≤ w.ceiling.memory ∧ w.core0.ceiling ≤ w.ceiling.memory
  noPeer0 : w.peers 0 = none
  held : ∀ core id, w.Holder core id → w.Carved owner floor core id
  runs : ∀ e ∈ w.issued, e.run ≤ w.run
  current : ∀ e ∈ w.issued, e.run = w.run →
    w.Carved owner floor e.core e.id ∧ e.id < w.nextOf e.core
  earlier : ∀ e ∈ w.issued, e.run < w.run → e.id < floor
  top : ∀ e ∈ w.issued, e.id ≤ kMaxTrxId
  once : (w.issued.map Issued.id).Nodup
  rising : w.issued.Pairwise fun e later => e.run = later.run → e.core = later.core →
    e.id < later.id

namespace Inv

variable {w w' : World} {owner : Nat → Nat} {floor : Nat}

theorem carve (h : Inv w owner floor) (core : Nat) :
    Inv w (fun id => if w.ceiling.memory ≤ id then core else owner id) floor := by
  have hsame : ∀ k id, w.Carved owner floor k id →
      w.Carved (fun id => if w.ceiling.memory ≤ id then core else owner id) floor k id := by
    rintro k id ⟨howner, hlow, hhigh⟩
    have hle := h.durableLe
    refine ⟨?_, hlow, hhigh⟩
    dsimp only
    rw [if_neg (by omega), howner]
  exact { h with
    held := fun k id hid => hsame k id (h.held k id hid)
    current := fun e he hrun => ⟨hsame _ _ (h.current e he hrun).1, (h.current e he hrun).2⟩ }

theorem move (h : Inv w owner floor) (hrun : w'.run = w.run) (hissued : w'.issued = w.issued)
    (hrise : w.ceiling.durable ≤ w'.ceiling.durable)
    (hdurable : w'.ceiling.durable ≤ w'.ceiling.memory)
    (hcore0 : w'.core0.next ≤ w'.ceiling.memory ∧ w'.core0.ceiling ≤ w'.ceiling.memory)
    (hpeer0 : w'.peers 0 = none) (hnext : ∀ core, w.nextOf core ≤ w'.nextOf core)
    (hheld : ∀ core id, w'.Holder core id →
      w.Holder core id ∨ w'.Carved owner floor core id) : Inv w' owner floor := by
  have hkeep : ∀ k id, w.Carved owner floor k id → w'.Carved owner floor k id :=
    fun k id hid => ⟨hid.1, hid.2.1, Nat.lt_of_lt_of_le hid.2.2 hrise⟩
  refine ⟨hdurable, Nat.le_trans h.floorLe hrise, hcore0, hpeer0, fun core id hid => ?_, ?_, ?_, ?_,
    ?_, ?_, ?_⟩
  · exact (hheld core id hid).elim (fun hold => hkeep core id (h.held core id hold))
      fun hnew => hnew
  all_goals rw [hissued]
  · rw [hrun]
    exact h.runs
  · rw [hrun]
    intro e he hcur
    obtain ⟨hcarved, hbelow⟩ := h.current e he hcur
    exact ⟨hkeep _ _ hcarved, Nat.lt_of_lt_of_le hbelow (hnext e.core)⟩
  · rw [hrun]
    exact h.earlier
  · exact h.top
  · exact h.once
  · exact h.rising

variable {core : Nat} {p : Peer}

theorem record (h : Inv w owner floor) {answer : StatusOr Nat}
    (hid : ∀ id, answer = .ok id → w.Carved owner floor core id ∧ id < w.nextOf core ∧
      id ≤ kMaxTrxId ∧ ∀ e ∈ w.issued, e.run = w.run → e.core = core → e.id < id) :
    Inv (w.record core answer) owner floor := by
  cases answer with
  | error e => exact h
  | ok id =>
    obtain ⟨hcarved, hbelow, htop, habove⟩ := hid id rfl
    have hmem : ∀ e ∈ w.issued ++ [⟨w.run, core, id⟩], e ∈ w.issued ∨ e = ⟨w.run, core, id⟩ :=
      fun e he => (List.mem_append.mp he).imp_right List.mem_singleton.mp
    have hfresh : ∀ e ∈ w.issued, e.id ≠ id := by
      intro e he heq
      rcases Nat.lt_or_eq_of_le (h.runs e he) with hold | hcur
      · have := h.earlier e he hold
        have := hcarved.2.1
        omega
      · have howner := (h.current e he hcur).1.1
        rw [heq, hcarved.1] at howner
        have := habove e he hcur howner.symm
        omega
    refine ⟨h.durableLe, h.floorLe, h.core0Le, h.noPeer0, h.held, fun e he => ?_,
      fun e he hrun => ?_, fun e he hrun => ?_, fun e he => ?_, ?_, ?_⟩
    · rcases hmem e he with hold | rfl
      · exact h.runs e hold
      · exact Nat.le_refl _
    · rcases hmem e he with hold | rfl
      · exact h.current e hold hrun
      · exact ⟨hcarved, hbelow⟩
    · rcases hmem e he with hold | rfl
      · exact h.earlier e hold hrun
      · exact absurd hrun (Nat.lt_irrefl w.run)
    · rcases hmem e he with hold | rfl
      · exact h.top e hold
      · exact htop
    · show ((w.issued ++ [(⟨w.run, core, id⟩ : Issued)]).map Issued.id).Nodup
      rw [List.map_append]
      refine List.nodup_append.mpr ⟨h.once, List.nodup_singleton id, fun x hx y hy => ?_⟩
      obtain ⟨e, he, rfl⟩ := List.mem_map.mp hx
      rw [List.mem_singleton.mp hy]
      exact hfresh e he
    · refine List.pairwise_append.mpr ⟨h.rising, List.pairwise_singleton .., ?_⟩
      intro e he later hlater hrun hcore
      rw [List.mem_singleton.mp hlater] at hrun hcore ⊢
      exact habove e he hrun hcore

theorem raise (h : Inv w owner floor) {c : Ceiling} (hmem : w.ceiling.memory ≤ c.memory)
    (hrise : w.ceiling.durable ≤ c.durable) (hdurable : c.durable ≤ c.memory) :
    Inv { w with ceiling := c } owner floor := by
  obtain ⟨hnext, hceil⟩ := h.core0Le
  refine h.move rfl rfl hrise hdurable ⟨?_, ?_⟩ h.noPeer0 (fun core => Nat.le_refl _)
    fun core id hid => .inl hid
  · exact Nat.le_trans hnext hmem
  · exact Nat.le_trans hceil hmem

theorem ne_zero_of_peer (h : Inv w owner floor) (hp : w.peers core = some p) : core ≠ 0 := by
  rintro rfl
  rw [h.noPeer0] at hp
  cases hp

theorem setPeer (h : Inv w owner floor) (hcore : core ≠ 0) (grants : List Grant)
    (hgrants : ∀ g ∈ grants, g ∈ w.grants) (hnext : w.nextOf core ≤ p.window.next)
    (hheld : ∀ id, p.Holds id → w.Holder core id) :
    Inv { w with peers := Function.update w.peers core (some p), grants := grants } owner floor ∧
      World.nextOf { w with peers := Function.update w.peers core (some p), grants := grants }
        core = p.window.next := by
  have hself : World.nextOf
      { w with peers := Function.update w.peers core (some p), grants := grants } core =
        p.window.next := by
    unfold nextOf
    rw [if_neg hcore]
    simp only [Function.update_self]
  have hother : ∀ k, k ≠ core → World.nextOf
      { w with peers := Function.update w.peers core (some p), grants := grants } k =
        w.nextOf k := by
    intro k hk
    unfold nextOf
    simp only [Function.update_of_ne hk]
  refine ⟨h.move rfl rfl (Nat.le_refl _) h.durableLe h.core0Le ?_ (fun k => ?_)
    fun k id hid => .inl ?_, hself⟩
  · exact (Function.update_of_ne (Ne.symm hcore) _ _).trans h.noPeer0
  · by_cases hk : k = core
    · subst hk
      rw [hself]
      exact hnext
    · exact Nat.le_of_eq (hother k hk).symm
  · rcases hid with hzero | ⟨q, hq, hpeer⟩ | ⟨g, hg, hgrant⟩
    · exact .inl hzero
    · dsimp only at hq
      by_cases hk : k = core
      · subst hk
        rw [Function.update_self] at hq
        cases hq
        exact hheld id hpeer
      · rw [Function.update_of_ne hk] at hq
        exact .inr (.inl ⟨q, hq, hpeer⟩)
    · exact .inr (.inr ⟨g, hgrants g hg, hgrant⟩)

theorem next0 (h : Inv w owner floor) (ended : PersistEnd) (hs : w.step (.next0 ended) = some w') :
    ∃ owner', Inv w' owner' floor := by
  obtain ⟨⟨hmem, hrise, hdurable⟩, hcore0, hmoves, hheld⟩ :=
    nextCarved_spec w.ceiling w.core0 ended h.durableLe h.core0Le.1 h.core0Le.2
  cases hs
  have hsource : ∀ id, w.core0.Holds id ∨ (w.ceiling.memory ≤ id ∧
      id < (nextCarved w.ceiling w.core0 ended).1.durable) →
      w.Holder 0 id ∨ World.Carved { w with
        ceiling := (nextCarved w.ceiling w.core0 ended).1
        core0 := (nextCarved w.ceiling w.core0 ended).2.1 }
        (fun id => if w.ceiling.memory ≤ id then 0 else owner id) floor 0 id := by
    rintro id (hold | ⟨hlow, hhigh⟩)
    · exact .inl (.inl ⟨rfl, hold⟩)
    · have := h.floorLe
      have := h.durableLe
      exact .inr ⟨if_pos hlow, by omega, hhigh⟩
  have hmoved : Inv { w with
      ceiling := (nextCarved w.ceiling w.core0 ended).1
      core0 := (nextCarved w.ceiling w.core0 ended).2.1 }
      (fun id => if w.ceiling.memory ≤ id then 0 else owner id) floor := by
    refine (h.carve 0).move rfl rfl hrise hdurable hcore0 h.noPeer0 (fun core => ?_)
      fun core id hid => ?_
    · unfold nextOf
      split_ifs with hzero
      · exact hmoves.up
      · exact Nat.le_refl _
    · rcases hid with ⟨rfl, hzero⟩ | hpeer
      · exact hsource id (hheld id hzero)
      · exact .inl (.inr hpeer)
  refine ⟨_, hmoved.record fun id hid => ?_⟩
  obtain ⟨hlow, hhigh, htop, hsrc⟩ := hmoves.issued id hid
  refine ⟨?_, hhigh, htop, fun e he hrun hcore => ?_⟩
  · rcases hsource id hsrc with hold | hnew
    · obtain ⟨howner, hfloor, hdur⟩ := (h.carve 0).held 0 id hold
      exact ⟨howner, hfloor, Nat.lt_of_lt_of_le hdur hrise⟩
    · exact hnew
  · have hbelow := (h.current e he hrun).2
    rw [hcore] at hbelow
    exact Nat.lt_of_lt_of_le hbelow hlow

theorem nextPeer (h : Inv w owner floor) (core : Nat) (hs : w.step (.nextPeer core) = some w') :
    Inv w' owner floor := by
  simp only [World.step] at hs
  rcases hp : w.peers core with _ | p
  · rw [hp] at hs
    cases hs
  · rw [hp] at hs
    cases hs
    have hcore := h.ne_zero_of_peer hp
    have hnow : w.nextOf core = p.window.next := by
      unfold nextOf
      rw [if_neg hcore, hp]
    obtain ⟨hmoves, hheld⟩ := nextLeased_spec p
    have hin : ∀ id, p.Holds id → w.Holder core id := fun id hid => .inr (.inl ⟨p, hp, hid⟩)
    obtain ⟨hmoved, hnext⟩ := h.setPeer hcore (p := (nextLeased p).1) w.grants
      (fun g hg => hg) (hnow ▸ hmoves.up) fun id hid => hin id (hheld id hid)
    refine hmoved.record fun id hid => ?_
    obtain ⟨hlow, hhigh, htop, hsrc⟩ := hmoves.issued id hid
    refine ⟨h.held core id (hin id hsrc), hnext ▸ hhigh, htop, fun e he hrun hfrom => ?_⟩
    have hbelow := (h.current e he hrun).2
    rw [hfrom, hnow] at hbelow
    exact Nat.lt_of_lt_of_le hbelow hlow

theorem carveFor (h : Inv w owner floor) {count : Nat} (ended : PersistEnd)
    (hs : w.step (.carveFor core count ended) = some w') : ∃ owner', Inv w' owner' floor := by
  simp only [World.step] at hs
  split_ifs at hs with hbad
  obtain ⟨hmem, hrise, hdurable, hblock⟩ :=
    carve_spec w.ceiling count ended h.durableLe (by omega)
  rcases hcarve : TrxIds.carve w.ceiling count ended with ⟨c, e | r⟩
  · rw [hcarve] at hs hmem hrise hdurable
    cases hs
    exact ⟨owner, h.raise hmem hrise hdurable⟩
  · rw [hcarve] at hs hmem hrise hdurable hblock
    cases hs
    obtain ⟨hfirst, -, hend, hdone, -⟩ := hblock r rfl
    dsimp only at hmem hrise hdurable hend hdone
    have hraised := (h.carve core).raise hmem hrise hdurable
    refine ⟨_, hraised.move rfl rfl (Nat.le_refl _) hdurable hraised.core0Le h.noPeer0
      (fun k => Nat.le_refl _) fun k id hid => ?_⟩
    rcases hid with hzero | hpeer | ⟨g, hg, hto, hlow, hhigh⟩
    · exact .inl (.inl hzero)
    · exact .inl (.inr (.inl hpeer))
    · rcases Lib.mem_snoc.mp hg with hold | rfl
      · exact .inl (.inr (.inr ⟨g, hold, hto, hlow, hhigh⟩))
      · dsimp only at hto hlow hhigh
        have := h.floorLe
        have := h.durableLe
        refine .inr ⟨(if_pos (by omega)).trans hto, by omega, ?_⟩
        dsimp only
        omega

theorem deliver (h : Inv w owner floor) (i : Nat) (hs : w.step (.deliver i) = some w') :
    Inv w' owner floor := by
  simp only [World.step] at hs
  rcases hgrant : Lib.deliver w.grants i with _ | ⟨g, rest⟩
  · rw [hgrant] at hs
    cases hs
  · rw [hgrant] at hs
    dsimp only at hs
    rcases hp : w.peers g.core with _ | p
    · rw [hp] at hs
      cases hs
    · rw [hp] at hs
      cases hs
      have hcore := h.ne_zero_of_peer hp
      have hnow : w.nextOf g.core = p.window.next := by
        unfold nextOf
        rw [if_neg hcore, hp]
      refine (h.setPeer hcore rest (fun other hother => Lib.mem_of_mem_rest hgrant hother)
        ?_ fun id hid => ?_).1
      · exact Nat.le_of_eq hnow
      · rcases hid with hwindow | hpending
        · exact .inr (.inl ⟨p, hp, .inl hwindow⟩)
        · rcases grant_holds hpending with hold | hnew
          · exact .inr (.inl ⟨p, hp, .inr hold⟩)
          · exact .inr (.inr ⟨g, Lib.mem_of_deliver hgrant, rfl, hnew⟩)

theorem openPeer (h : Inv w owner floor) (core : Nat) (hs : w.step (.openPeer core) = some w') :
    Inv w' owner floor := by
  simp only [World.step] at hs
  split_ifs at hs with hbad
  cases hs
  rw [not_or, Option.not_isSome_iff_eq_none] at hbad
  obtain ⟨hcore, hnone⟩ := hbad
  refine (h.setPeer hcore w.grants (fun g hg => hg) ?_ fun id hid => ?_).1
  · unfold nextOf
    rw [if_neg hcore, hnone]
    exact Nat.zero_le _
  · rcases hid with ⟨hlow, hhigh⟩ | ⟨hlow, hhigh⟩
    all_goals
      dsimp only at hlow hhigh
      omega

theorem begin (c : Ceiling) (hdurable : c.durable = c.memory)
    (hrise : w.ceiling.durable ≤ c.durable) (h : Inv w owner floor) :
    Inv { w with
      run := w.run + 1
      ceiling := c
      core0 := ⟨c.memory, c.memory⟩
      peers := fun _ => none
      grants := [] } owner c.durable := by
  have hall : ∀ e ∈ w.issued, e.id < w.ceiling.durable := by
    intro e he
    rcases Nat.lt_or_eq_of_le (h.runs e he) with hold | hcur
    · exact Nat.lt_of_lt_of_le (h.earlier e he hold) h.floorLe
    · exact (h.current e he hcur).1.2.2
  refine ⟨Nat.le_of_eq hdurable, Nat.le_refl _, ⟨Nat.le_refl _, Nat.le_refl _⟩, rfl,
    fun core id hid => ?_, fun e he => Nat.le_succ_of_le (h.runs e he), fun e he hrun => ?_,
    fun e he _ => Nat.lt_of_lt_of_le (hall e he) hrise, h.top, h.once, h.rising⟩
  · rcases hid with ⟨-, hlow, hhigh⟩ | ⟨p, hp, -⟩ | ⟨g, hg, -⟩
    · dsimp only at hlow hhigh
      omega
    · cases hp
    · cases hg
  · have := h.runs e he
    dsimp only at hrun
    omega

theorem restart (h : Inv w owner floor) (recovered : Nat) (ended : PersistEnd)
    (hs : w.step (.restart recovered ended) = some w') : ∃ floor', Inv w' owner floor' := by
  simp only [World.step, mount, setNextTrxId] at hs
  split_ifs at hs with hbehind hback
  · dsimp only at hs
    rcases hpersist : persist ⟨recovered, w.ceiling.durable⟩ ended with ⟨c, e | _⟩
    · rw [hpersist] at hs
      obtain ⟨hmem, hrise, -, hdone⟩ := persist_spec ⟨recovered, w.ceiling.durable⟩ ended
        (Nat.le_of_lt hbehind)
      rw [hpersist] at hmem hrise hdone
      cases hs
      exact ⟨_, begin c ((hdone rfl).trans hmem.symm) hrise h⟩
    · rw [hpersist] at hs
      cases hs
  · cases hs
    exact ⟨_, begin ⟨w.ceiling.durable, w.ceiling.durable⟩ rfl (Nat.le_refl _) h⟩

/-- Every step keeps each id with one owner, below its floor. -/
theorem step (h : Inv w owner floor) (a : Action) (hs : w.step a = some w') :
    ∃ owner' floor', Inv w' owner' floor' := by
  cases a with
  | next0 ended =>
    obtain ⟨owner', hinv⟩ := h.next0 ended hs
    exact ⟨owner', floor, hinv⟩
  | nextPeer core => exact ⟨owner, floor, h.nextPeer core hs⟩
  | carveFor core count ended =>
    obtain ⟨owner', hinv⟩ := h.carveFor ended hs
    exact ⟨owner', floor, hinv⟩
  | deliver i => exact ⟨owner, floor, h.deliver i hs⟩
  | publish ended =>
    cases hs
    obtain ⟨hmem, hrise, hle, -⟩ := persist_spec w.ceiling ended h.durableLe
    exact ⟨owner, floor, h.raise (Nat.le_of_eq hmem.symm) hrise (hmem ▸ hle)⟩
  | openPeer core => exact ⟨owner, floor, h.openPeer core hs⟩
  | restart recovered ended =>
    obtain ⟨floor', hinv⟩ := h.restart recovered ended hs
    exact ⟨owner, floor', hinv⟩

end Inv

-- Runs

/-- A first mount: nothing is issued, the ceiling is the durable one. -/
structure Start (w : World) : Prop where
  loaded : w.ceiling.durable = w.ceiling.memory
  spent : w.core0 = ⟨w.ceiling.memory, w.ceiling.memory⟩
  noPeers : ∀ core, w.peers core = none
  noGrants : w.grants = []
  nothing : w.issued = []

/-- Some owners and some floor make the invariant hold. -/
def Sound (w : World) : Prop := ∃ owner floor, Inv w owner floor

theorem Start.sound {w : World} (h : w.Start) : w.Sound := by
  refine ⟨fun _ => 0, w.ceiling.durable, Nat.le_of_eq h.loaded, Nat.le_refl _, ?_, h.noPeers 0,
    fun core id hid => ?_, ?_, ?_, ?_, ?_, ?_, ?_⟩
  · rw [h.spent]
    exact ⟨Nat.le_refl _, Nat.le_refl _⟩
  · rcases hid with ⟨-, hlow, hhigh⟩ | ⟨p, hp, -⟩ | ⟨g, hg, -⟩
    · rw [h.spent] at hlow hhigh
      dsimp only at hlow hhigh
      omega
    · rw [h.noPeers] at hp
      cases hp
    · rw [h.noGrants] at hg
      cases hg
  all_goals
    rw [h.nothing]
    simp

end World

/-- **Transaction ids are never reissued.**  Whatever carves, grants, failed persists, restarts and
    `Next` calls come in whatever order, no id is returned twice, on any cores, in any runs; none
    exceeds the top of the id space; and a core's ids rise within a run. -/
theorem trx_ids_never_reissued {w0 w : World} (hstart : w0.Start)
    (hrun : Lib.Reach World.step (fun _ _ => True) w0 w) :
    (w.issued.map Issued.id).Nodup ∧ (∀ e ∈ w.issued, e.id ≤ kMaxTrxId) ∧
      w.issued.Pairwise fun e later => e.run = later.run → e.core = later.core →
        e.id < later.id := by
  have hsound : w.Sound := by
    apply hrun.invariant hstart.sound
    rintro t u a ⟨owner, floor, ht⟩ - hs
    exact ht.step a hs
  obtain ⟨owner, floor, h⟩ := hsound
  exact ⟨h.once, h.top, h.rising⟩

/-- A created database. -/
def firstMount : World :=
  ⟨1, ⟨kFirstUserTrxId, kFirstUserTrxId⟩, ⟨kFirstUserTrxId, kFirstUserTrxId⟩, fun _ => none, [], []⟩

theorem firstMount_start : firstMount.Start := ⟨rfl, rfl, fun _ => rfl, rfl, rfl⟩

/-- Both cores issue; a carve whose persist fails burns its block; the run after the crash begins
    at the durable ceiling. -/
def twoRuns : List Action :=
  [.next0 .ok, .openPeer 1, .carveFor 1 kTrxIdLeasePerGrant .ok, .deliver 0, .nextPeer 1,
    .next0 .ok,
    .carveFor 1 kTrxIdLeasePerGrant (.failed ⟨.ioError, "sync"⟩ false), .nextPeer 1, .restart 0 .ok,
    .next0 .ok]

def issuedIds : List Nat := [2, 4098, 3, 4099, 8194]

theorem trx_ids_never_reissued_two_runs :
    ∃ w, Lib.Reach World.step (fun _ _ => True) firstMount w ∧ w.issued.map Issued.id = issuedIds ∧
      (w.issued.map Issued.id).Nodup ∧ (∀ e ∈ w.issued, e.id ≤ kMaxTrxId) := by
  have hend : (Lib.runList World.step twoRuns firstMount).any
      (fun w => w.issued.map Issued.id = issuedIds) = true := by decide +kernel
  obtain ⟨w, hw, hids⟩ := (Option.any_eq_true _ _).mp hend
  have hrun : Lib.Reach World.step (fun _ _ => True) firstMount w :=
    Lib.reach_of_runList (fun _ _ _ => trivial) hw
  obtain ⟨hnodup, htop, -⟩ := trx_ids_never_reissued firstMount_start hrun
  exact ⟨w, hrun, of_decide_eq_true hids, hnodup, htop⟩

end Kds.Txn.TrxIds
