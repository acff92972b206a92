/-
  Kds.Server.IndexBuildRuns

  Cross-core CREATE INDEX over whole runs: whatever the order of requests, builds, replies and done
  messages, whichever deadlines pass and whatever the owner writes, commits and rolls back
  meanwhile, a published index has an entry for every version that some view can read.

  Core 0's half is a `Lib.Desk`.  The invariant here adds the windows: a definition that may still
  be published has its window open, and its tree, once built, is complete; a published one has its
  window open or stands in the owner's catalog cache and on the device.  A window is always
  accounted for by a queued build, a good reply on its way or arrived, or a `done`.

  Three paths lose a row: a backfill that takes a failed append of an older version for the end of
  the undo chain (`buildSkipsOldVersion`), an INSERT whose index append fails, which leaves its
  tuple behind, and a `done` that reaches the owner before the row has reached the device.
-/

import Kds.Lib.Handshake
import Kds.Lib.Run
import Kds.Server.IndexBuild

namespace Kds.Server.IndexBuild

open Exec Exec.Indexed List Lib OwnerCore
open Function (update update_self update_of_ne)

variable {π ε : Type}

/-- No message of the protocol is in flight, no build queued, no statement waiting. -/
def World.Quiet (w : World π ε) : Prop :=
  w.requests = [] ∧ w.builds = [] ∧ w.replies = [] ∧ w.dones = [] ∧ w.parked = []

/-- The owner keeps a window for the definition. -/
def Opened (ownerOf : Oid → Nat) (cores : Nat → OwnerCore π ε) (d : IndexDef) : Prop :=
  ∃ e ∈ (cores (ownerOf d.tableOid)).windows, e.indexOid = d.indexOid ∧ e.tableOid = d.tableOid

/-- The owner's tree has an entry for every version that some view can read. -/
def Complete (entryOf : IndexDef → π → ε) (ownerOf : Oid → Nat) (cores : Nat → OwnerCore π ε)
    (d : IndexDef) : Prop :=
  (cores (ownerOf d.tableOid)).store.Complete entryOf d

-- What the claim asks, and when the code does it

section

variable [DecidableEq ε] (entryOf : IndexDef → π → ε) (ownerOf : Oid → Nat)

omit [DecidableEq ε] in
/-- **When no row is missed.**  No append of an older version fails in a backfill; no INSERT is
    admitted whose index append fails; a `done(committed)` that closes a window finds the row on
    the device and the owner's cache evicted.  And, as the claim has it, no window gets to its
    ceiling. -/
def Meets (w : World π ε) : Action π → Prop
  | .runBuild _ inputs => ∀ n k, (inputs.rows n).older k = none
  | .deliverDone i evicted => ∀ msg, w.dones[i]? = some msg → msg.committed = true →
      (∃ e ∈ (w.cores msg.dstCore).windows, e.indexOid = msg.indexOid) →
      evicted = true ∧ ∃ d ∈ w.device, d.indexOid = msg.indexOid
  | .tick core _ => ∀ e ∈ (w.cores core).windows, e.expired w.now = false
  | .rows core act => ¬ (w.cores core).store.PlacesUnindexed (w.cores core).covers act
  | _ => True

omit [DecidableEq ε] in
/-- The start: nothing in flight, no window, every row on the device and in its owner's cache with
    a complete tree, one row an oid, and the counter past every oid in use. -/
structure Start (w : World π ε) : Prop where
  quiet : w.Quiet
  waiting : ∀ r, w.waiting r = none
  windows : ∀ core, (w.cores core).windows = []
  orderly : ∀ core, (w.cores core).store.Orderly
  complete : ∀ d ∈ w.indexes, Complete entryOf ownerOf w.cores d
  known : ∀ d ∈ w.indexes, d ∈ (w.cores (ownerOf d.tableOid)).store.known
  device : w.device = w.indexes
  once : (w.indexes.map (·.indexOid)).Nodup
  below : ∀ d ∈ w.indexes, d.indexOid < w.nextIndexOid

end

-- Core 0 as a desk

def BuildRequest.ask (q : BuildRequest) : Lib.Ask :=
  ⟨q.requestId, q.def_.indexOid, q.def_.tableOid, q.dstCore⟩

def BuildReply.answer (p : BuildReply) : Lib.Answer :=
  ⟨p.requestId, p.indexOid, p.srcCore, p.status.isNone⟩

def BuildDone.done (m : BuildDone) : Lib.Done := ⟨m.dstCore, m.indexOid, m.committed⟩

def PendingIndexBuild.ask (b : PendingIndexBuild) : Lib.Ask :=
  ⟨b.requestId, b.def_.indexOid, b.def_.tableOid, b.ownerCore⟩

def rowOf (d : IndexDef) : Lib.Row := ⟨d.indexOid, d.tableOid⟩

def BuildOutcome.verdict (out : BuildOutcome) : Option Bool :=
  if out.arrived then some out.status.isNone else none

/-- The requester's side of the protocol.  A queued build is an ask still without an answer. -/
def World.desk (w : World π ε) : Lib.Desk where
  nextRequest := w.nextRemoteRequest
  nextItem := w.nextIndexOid
  parked := w.parked.map PendingIndexBuild.ask
  arrived := fun r => (w.waiting r).map BuildOutcome.verdict
  asked := w.requests.map BuildRequest.ask ++ w.builds.map BuildRequest.ask
  answers := w.replies.map BuildReply.answer
  dones := w.dones.map BuildDone.done
  rows := w.indexes.map rowOf

-- Windows

namespace OwnerCore

variable {owner : OwnerCore π ε} {e : Window}

theorem mem_close (honce : (owner.windows.map (·.indexOid)).Nodup) {id : Nat} :
    e ∈ (owner.close id).windows ↔ e ∈ owner.windows ∧ e.indexOid ≠ id := by
  show e ∈ owner.windows.eraseP (fun e => e.indexOid == id) ↔ _
  constructor
  · intro he
    refine ⟨mem_of_mem_eraseP he, fun heq => ?_⟩
    obtain ⟨x, l₁, l₂, hl₁, hx, hl, herase⟩ :=
      exists_of_eraseP (p := fun e : Window => e.indexOid == id) (mem_of_mem_eraseP he)
        (by simpa using heq)
    rw [herase] at he
    rw [hl, map_append, map_cons] at honce
    have hx : x.indexOid = id := by simpa using hx
    rcases mem_append.mp he with he | he
    · exact hl₁ e he (by simpa using heq)
    · have htail := (nodup_append.mp honce).2.1
      exact (nodup_cons.mp htail).1 (mem_map.mpr ⟨e, he, heq.trans hx.symm⟩)
  · rintro ⟨he, hne⟩
    exact (mem_eraseP_of_neg (by simpa using hne)).mpr he

variable {device : List IndexDef} {evicted : Bool}

variable {d : IndexDef}

end OwnerCore

-- The invariant

/-- A window's reason to be open. -/
def Accounted (w : World π ε) (core indexOid : Nat) : Prop :=
  (∃ q ∈ w.builds, q.dstCore = core ∧ q.def_.indexOid = indexOid) ∨
  (∃ p ∈ w.replies, p.status = none ∧ p.srcCore = core ∧ p.indexOid = indexOid) ∨
  (∃ b ∈ w.parked, b.ownerCore = core ∧ b.def_.indexOid = indexOid ∧
    w.desk.arrived b.requestId = some (some true)) ∨
  ∃ m ∈ w.dones, m.dstCore = core ∧ m.indexOid = indexOid

/-- **The run invariant.**  `defs` is the definition each oid was issued for. -/
structure Inv (entryOf : IndexDef → π → ε) (ownerOf : Oid → Nat) (ticket : Lib.Tickets)
    (defs : Nat → Option IndexDef) (w : World π ε) : Prop where
  desk : Lib.DeskInv ownerOf ticket w.desk
  asked : ∀ q ∈ w.requests ++ w.builds, defs q.def_.indexOid = some q.def_
  parked : ∀ b ∈ w.parked, defs b.def_.indexOid = some b.def_
  rows : ∀ d ∈ w.indexes, defs d.indexOid = some d
  device : ∀ d ∈ w.device, defs d.indexOid = some d
  below : ∀ id d, defs id = some d → id < w.nextIndexOid
  committed : ∀ m ∈ w.dones, m.committed = true →
    ∃ d ∈ w.indexes, d.indexOid = m.indexOid ∧ m.dstCore = ownerOf d.tableOid
  orderly : ∀ core, (w.cores core).store.Orderly
  windowsOnce : ∀ core, ((w.cores core).windows.map (·.indexOid)).Nodup
  windowsBelow : ∀ core, ∀ e ∈ (w.cores core).windows, e.indexOid < w.nextIndexOid
  unopened : ∀ q ∈ w.requests, ∀ core, ∀ e ∈ (w.cores core).windows,
    e.indexOid ≠ q.def_.indexOid
  building : ∀ q ∈ w.builds, ∀ b ∈ w.parked, b.def_.indexOid = q.def_.indexOid →
    Opened ownerOf w.cores b.def_
  built : ∀ p ∈ w.replies, p.status = none → ∀ b ∈ w.parked, b.def_.indexOid = p.indexOid →
    Opened ownerOf w.cores b.def_ ∧ Complete entryOf ownerOf w.cores b.def_
  arrived : ∀ b ∈ w.parked, w.desk.arrived b.requestId = some (some true) →
    Opened ownerOf w.cores b.def_ ∧ Complete entryOf ownerOf w.cores b.def_
  published : ∀ d ∈ w.indexes, Complete entryOf ownerOf w.cores d ∧
    (Opened ownerOf w.cores d ∨
      d ∈ (w.cores (ownerOf d.tableOid)).store.known ∧ d ∈ w.device)
  accounted : ∀ core, ∀ e ∈ (w.cores core).windows, Accounted w core e.indexOid

section

variable {entryOf : IndexDef → π → ε} {ownerOf : Oid → Nat} {ticket : Lib.Tickets}
  {defs : Nat → Option IndexDef} {w : World π ε}

variable {cores : Nat → OwnerCore π ε} {d : IndexDef} {c : Nat} {owner : OwnerCore π ε}
    {b : PendingIndexBuild} {e : Window} {device : List IndexDef} {m : BuildDone}

theorem Opened.update (h : Opened ownerOf cores d)
    (hkeep : ∀ e ∈ (cores c).windows, e.indexOid = d.indexOid → e ∈ owner.windows) :
    Opened ownerOf (update cores c owner) d := by
  obtain ⟨e, he, hid, htable⟩ := h
  refine ⟨e, ?_, hid, htable⟩
  by_cases hc : ownerOf d.tableOid = c
  · rw [hc, update_self]
    exact hkeep e (hc ▸ he) hid
  · rw [update_of_ne hc]
    exact he

theorem Complete.update (h : Complete entryOf ownerOf cores d)
    (hkeep : c = ownerOf d.tableOid → (cores c).store.Complete entryOf d →
      owner.store.Complete entryOf d) :
    Complete entryOf ownerOf (update cores c owner) d := by
  unfold Complete
  by_cases hc : ownerOf d.tableOid = c
  · rw [hc, update_self]
    exact hkeep hc.symm (hc ▸ h)
  · rw [update_of_ne hc]
    exact h

theorem known_update {core : Nat} (h : d ∈ (cores core).store.known)
    (hkeep : d ∈ (cores c).store.known → d ∈ owner.store.known) :
    d ∈ (update cores c owner core).store.known := by
  by_cases hc : core = c
  · rw [hc, update_self]
    exact hkeep (hc ▸ h)
  · rw [update_of_ne hc]
    exact h

theorem forall_update {P : Nat → OwnerCore π ε → Prop} (h : ∀ core, P core (cores core))
    (hnew : P c owner) (core : Nat) : P core (update cores c owner core) := by
  by_cases hc : core = c
  · rw [hc, update_self]
    exact hnew
  · rw [update_of_ne hc]
    exact h core

-- Requests

theorem Inv.same_def (h : Inv entryOf ownerOf ticket defs w) {q : BuildRequest}
    (hq : q ∈ w.requests ++ w.builds) (hb : b ∈ w.parked)
    (hid : b.def_.indexOid = q.def_.indexOid) : b.def_ = q.def_ := by
  have hparked := h.parked b hb
  rw [hid, h.asked q hq] at hparked
  exact (Option.some.inj hparked).symm

variable {i : Nat}

variable {q : BuildRequest} {rest : List BuildRequest}

theorem Inv.refuse (h : Inv entryOf ownerOf ticket defs w) {i : Nat} {q : BuildRequest}
    {rest : List BuildRequest} (hq : Lib.deliver w.requests i = some (q, rest)) (e : Status) :
    Inv entryOf ownerOf ticket defs (({ w with requests := rest } : World π ε).reply q
      (some e)) := by
  have hsub : ∀ x ∈ rest, x ∈ w.requests := fun x hx => mem_of_mem_rest hq hx
  have hdesk := h.desk.answered (deliver_map_perm hq BuildRequest.ask _) false
  refine { h with desk := ?_, asked := ?_, unopened := ?_, built := ?_, accounted := ?_ }
  · have heq : (({ w with requests := rest } : World π ε).reply q (some e)).desk = { w.desk with
        asked := rest.map BuildRequest.ask ++ w.builds.map BuildRequest.ask
        answers := w.desk.answers ++ [⟨q.ask.request, q.ask.item, q.ask.worker, false⟩] } := by
      simp [World.desk, World.reply, BuildReply.answer, BuildRequest.ask]
    exact heq ▸ hdesk
  · intro x hx
    apply h.asked x
    rcases mem_append.mp hx with hx | hx
    · exact mem_append_left _ (hsub x hx)
    · exact mem_append_right _ hx
  · exact fun x hx => h.unopened x (hsub x hx)
  · intro p hp hgood
    rcases mem_snoc.mp hp with hp | rfl
    · exact h.built p hp hgood
    · cases hgood
  · intro core win hwin
    rcases h.accounted core win hwin with hb | ⟨p, hp, hrest⟩ | hrest
    · exact .inl hb
    · exact .inr (.inl ⟨p, mem_append_left _ hp, hrest⟩)
    · exact .inr (.inr hrest)

/-- **A build answers.**  The owner drops the window of a build that failed, and has a complete tree
    of one that did not. -/
theorem Inv.answer (h : Inv entryOf ownerOf ticket defs w)
    (hq : Lib.deliver w.builds i = some (q, rest)) {result : Option Status}
    (horderly : owner.store.Orderly) (hknown : owner.store.known = (w.cores q.dstCore).store.known)
    (honce : (owner.windows.map (·.indexOid)).Nodup)
    (hwindows : ∀ x, x ∈ owner.windows ↔
      x ∈ (w.cores q.dstCore).windows ∧ (x.indexOid = q.def_.indexOid → result = none))
    (hother : ∀ d : IndexDef, d.indexOid ≠ q.def_.indexOid →
      (w.cores q.dstCore).store.Complete entryOf d → owner.store.Complete entryOf d)
    (hbuilt : result = none → owner.store.Complete entryOf q.def_) :
    Inv entryOf ownerOf ticket defs
      ((({ w with builds := rest } : World π ε).setCore q.dstCore owner).reply q result) := by
  have hsub : ∀ x ∈ rest, x ∈ w.builds := fun x hx => mem_of_mem_rest hq hx
  have hmem : q ∈ w.builds := mem_of_deliver hq
  have hperm : w.desk.asked.Perm _ := deliver_map_perm_right hq BuildRequest.ask _
  have hworker : q.dstCore = ownerOf q.def_.tableOid :=
    (h.desk.ask q.ask (mem_append_right _ (mem_map_of_mem hmem))).1
  have hflying : q.def_.indexOid ∈ w.desk.flying :=
    Lib.Desk.mem_flying.mpr (.inl ⟨q.ask, mem_append_right _ (mem_map_of_mem hmem), rfl⟩)
  have hopened : ∀ d : IndexDef, (d.indexOid = q.def_.indexOid → result = none) →
      Opened ownerOf w.cores d → Opened ownerOf (update w.cores q.dstCore owner) d :=
    fun d hid hd => hd.update fun x hx heq => (hwindows x).mpr ⟨hx, fun hown => hid (heq ▸ hown)⟩
  have hkept : ∀ d : IndexDef, d.indexOid ≠ q.def_.indexOid → Opened ownerOf w.cores d →
      Opened ownerOf (update w.cores q.dstCore owner) d :=
    fun d hne => hopened d fun heq => absurd heq hne
  have hcomplete : ∀ d : IndexDef, d.indexOid ≠ q.def_.indexOid →
      Complete entryOf ownerOf w.cores d →
      Complete entryOf ownerOf (update w.cores q.dstCore owner) d :=
    fun d hne hd => hd.update fun _ hstore => hother d hne hstore
  have hwin : ∀ core, ∀ x ∈ (update w.cores q.dstCore owner core).windows,
      x ∈ (w.cores core).windows ∧
        (core = q.dstCore → x.indexOid = q.def_.indexOid → result = none) := by
    intro core x hx
    by_cases hc : core = q.dstCore
    · rw [hc, update_self, hwindows] at hx
      exact ⟨hc ▸ hx.1, fun _ => hx.2⟩
    · rw [update_of_ne hc] at hx
      exact ⟨hx, fun heq => absurd heq hc⟩
  refine { h with
    desk := ?_, asked := ?_, orderly := ?_, windowsOnce := ?_, windowsBelow := ?_, unopened := ?_
    building := ?_, built := ?_, arrived := ?_, published := ?_, accounted := ?_ }
  · have heq : ((({ w with builds := rest } : World π ε).setCore q.dstCore owner).reply q
        result).desk = { w.desk with
          asked := w.requests.map BuildRequest.ask ++ rest.map BuildRequest.ask
          answers := w.desk.answers ++
            [⟨q.ask.request, q.ask.item, q.ask.worker, result.isNone⟩] } := by
      simp [World.desk, World.reply, World.setCore, BuildReply.answer, BuildRequest.ask]
    exact heq ▸ h.desk.answered hperm result.isNone
  · intro x hx
    apply h.asked x
    rcases mem_append.mp hx with hx | hx
    · exact mem_append_left _ hx
    · exact mem_append_right _ (hsub x hx)
  · exact forall_update (P := fun _ o => o.store.Orderly) h.orderly horderly
  · exact forall_update (P := fun _ o => (o.windows.map (·.indexOid)).Nodup) h.windowsOnce honce
  · exact fun core x hx => h.windowsBelow core x (hwin core x hx).1
  · exact fun x hx core win hw => h.unopened x hx core win (hwin core win hw).1
  · intro x hx b hb hid
    refine hkept _ ?_ (h.building x (hsub x hx) b hb hid)
    rw [hid]
    exact h.desk.not_asked_of_answered hperm x.ask
      (mem_append_right _ (mem_map_of_mem hx))
  · intro p hp hgood b hb hid
    rcases mem_snoc.mp hp with hp | hp
    · obtain ⟨h₁, h₂⟩ := h.built p hp hgood b hb hid
      -- the answer and the ask of one oid are not both on their way
      have hne : b.def_.indexOid ≠ q.def_.indexOid := fun heq => by
        have hnodup := nodup_append.mp h.desk.flyingOnce
        refine hnodup.2.2 q.def_.indexOid ?_ p.indexOid ?_ (heq.symm.trans hid)
        · exact mem_map.mpr ⟨q.ask, mem_append_right _ (mem_map_of_mem hmem), rfl⟩
        · exact mem_map.mpr ⟨p.answer, mem_map_of_mem hp, rfl⟩
      exact ⟨hkept _ hne h₁, hcomplete _ hne h₂⟩
    · -- the statement behind the new reply
      rw [hp] at hgood hid
      refine ⟨hopened _ (fun _ => hgood) (h.building q hmem b hb hid), ?_⟩
      rw [h.same_def (mem_append_right _ hmem) hb hid]
      show (update w.cores q.dstCore _ (ownerOf q.def_.tableOid)).store.Complete _ _
      rw [← hworker, update_self]
      exact hbuilt hgood
  · intro b hb harr
    obtain ⟨h₁, h₂⟩ := h.arrived b hb harr
    have hne : b.def_.indexOid ≠ q.def_.indexOid := fun heq =>
      h.desk.arrivedOnce b.ask (mem_map_of_mem hb) true harr
        (by rw [show b.ask.item = b.def_.indexOid from rfl, heq]; exact hflying)
    exact ⟨hkept _ hne h₁, hcomplete _ hne h₂⟩
  · intro d hd
    obtain ⟨h₁, h₂⟩ := h.published d hd
    have hne : d.indexOid ≠ q.def_.indexOid := fun heq =>
      (h.desk.rowSettled (rowOf d) (mem_map_of_mem hd)).1
        (by rw [show (rowOf d).item = d.indexOid from rfl, heq]; exact hflying)
    exact ⟨hcomplete _ hne h₁, h₂.imp (hkept d hne) fun ⟨hin, hdevice⟩ =>
      ⟨known_update hin fun hin => hknown ▸ hin, hdevice⟩⟩
  · intro core win hw
    obtain ⟨hw, hresult⟩ := hwin core win hw
    rcases h.accounted core win hw with ⟨x, hx, hcore, hid⟩ | ⟨p, hp, hrest⟩ | hrest
    · rcases eq_or_mem_rest hq hx with rfl | hx
      · exact .inr (.inl ⟨_, mem_concat_self, hresult hcore.symm hid.symm, hcore, hid⟩)
      · exact .inl ⟨x, hx, hcore, hid⟩
    · exact .inr (.inl ⟨p, mem_append_left _ hp, hrest⟩)
    · exact .inr (.inr hrest)

theorem Inv.fail (h : Inv entryOf ownerOf ticket defs w)
    (hq : Lib.deliver w.builds i = some (q, rest)) (e : Status) :
    Inv entryOf ownerOf ticket defs ((({ w with builds := rest } : World π ε).setCore q.dstCore
      ((w.cores q.dstCore).close q.def_.indexOid)).reply q (some e)) := by
  refine h.answer hq (h.orderly q.dstCore) rfl ?_ (fun x => ?_) (fun d _ hd => hd) nofun
  · exact (h.windowsOnce q.dstCore).sublist (eraseP_sublist.map _)
  · rw [mem_close (h.windowsOnce q.dstCore)]
    exact and_congr_right fun _ => ⟨fun hne heq => absurd heq hne, fun hid heq => nomatch hid heq⟩

section

variable [DecidableEq ε]

end

-- Replies

theorem desk_close (w : World π ε) (b : PendingIndexBuild) (rest : List PendingIndexBuild)
    (committed : Bool) :
    ((w.close rest b.requestId).done b.ownerCore b.def_.indexOid committed).desk = { w.desk with
      parked := rest.map PendingIndexBuild.ask
      arrived := update w.desk.arrived b.ask.request none
      dones := w.desk.dones ++ [⟨b.ask.worker, b.ask.item, committed⟩] } := by
  simp [World.desk, World.close, World.done, map_update, BuildDone.done, PendingIndexBuild.ask]

theorem Inv.accounted_close (h : Inv entryOf ownerOf ticket defs w) {rest : List PendingIndexBuild}
    (hb : Lib.deliver w.parked i = some (b, rest)) (committed : Bool) (core : Nat)
    (he : e ∈ (w.cores core).windows) :
    Accounted ((w.close rest b.requestId).done b.ownerCore b.def_.indexOid committed) core
      e.indexOid := by
  have hperm : w.desk.parked.Perm (b.ask :: rest.map PendingIndexBuild.ask) :=
    (deliver_perm hb).map PendingIndexBuild.ask
  rcases h.accounted core e he with hq | hp | ⟨x, hx, hcore, hid, harr⟩ | ⟨m, hm, hrest⟩
  · exact .inl hq
  · exact .inr (.inl hp)
  · rcases eq_or_mem_rest hb hx with rfl | hx
    · exact .inr (.inr (.inr ⟨_, mem_concat_self, hcore, hid⟩))
    · refine .inr (.inr (.inl ⟨x, hx, hcore, hid, ?_⟩))
      rw [desk_close]
      exact (h.desk.arrived_close hperm (mem_map_of_mem hx)).2.trans harr
  · exact .inr (.inr (.inr ⟨m, mem_append_left _ hm, hrest⟩))

theorem Inv.arrived_rest (h : Inv entryOf ownerOf ticket defs w) {x : PendingIndexBuild}
    {rest : List PendingIndexBuild} (hb : Lib.deliver w.parked i = some (b, rest)) (hx : x ∈ rest)
    {answer : Option (Option Bool)}
    (harr : update w.desk.arrived b.ask.request none x.requestId = answer) :
    w.desk.arrived x.requestId = answer :=
  (h.desk.arrived_close ((deliver_perm hb).map PendingIndexBuild.ask)
    (mem_map_of_mem hx)).2.symm.trans harr

theorem device_kept {d new : IndexDef}
    (hdevice : device = w.device ∨ device = w.indexes ++ [new]) (hd : d ∈ w.indexes)
    (hin : d ∈ w.device) : d ∈ device := by
  rcases hdevice with rfl | rfl
  · exact hin
  · exact mem_append_left _ hd

/-- **A statement gives up.**  The catalog pages may be flushed on the way, with a row that does
    not commit. -/
theorem Inv.abandon (h : Inv entryOf ownerOf ticket defs w) {rest : List PendingIndexBuild}
    (hb : Lib.deliver w.parked i = some (b, rest))
    (hdevice : device = w.device ∨ device = w.indexes ++ [b.def_]) :
    Inv entryOf ownerOf ticket defs (({ w.close rest b.requestId with device := device } :
      World π ε).done b.ownerCore b.def_.indexOid false) := by
  have hsub : ∀ x ∈ rest, x ∈ w.parked := fun x hx => mem_of_mem_rest hb hx
  refine { h with
    desk := ?_, parked := ?_, device := ?_, committed := ?_, building := ?_, built := ?_
    arrived := ?_, published := ?_, accounted := ?_ }
  · exact (desk_close w b rest false) ▸
      h.desk.abandoned ((deliver_perm hb).map PendingIndexBuild.ask)
  · exact fun x hx => h.parked x (hsub x hx)
  · intro d hd
    rcases hdevice with rfl | rfl
    · exact h.device d hd
    · rcases mem_snoc.mp hd with hd | rfl
      · exact h.rows d hd
      · exact h.parked b (mem_of_deliver hb)
  · intro m hm hc
    rcases mem_snoc.mp hm with hm | rfl
    · exact h.committed m hm hc
    · cases hc
  · exact fun q hq x hx => h.building q hq x (hsub x hx)
  · exact fun p hp hgood x hx => h.built p hp hgood x (hsub x hx)
  · exact fun x hx harr =>
      h.arrived x (hsub x hx) (h.arrived_rest hb hx
        ((congrFun (congrArg Lib.Desk.arrived (desk_close w b rest false)) _).symm.trans harr))
  · intro d hd
    obtain ⟨h₁, h₂⟩ := h.published d hd
    exact ⟨h₁, h₂.imp_right fun ⟨hknown, hin⟩ => ⟨hknown, device_kept hdevice hd hin⟩⟩
  · exact fun core e he => h.accounted_close hb false core he

theorem Inv.publish (h : Inv entryOf ownerOf ticket defs w) {rest : List PendingIndexBuild}
    (hb : Lib.deliver w.parked i = some (b, rest))
    (harr₀ : w.desk.arrived b.requestId = some (some true))
    (hdevice : device = w.device ∨ device = w.indexes ++ [b.def_]) :
    Inv entryOf ownerOf ticket defs (({ w.close rest b.requestId with
      indexes := w.indexes ++ [b.def_], device := device } : World π ε).done b.ownerCore
        b.def_.indexOid true) := by
  have hmem : b ∈ w.parked := mem_of_deliver hb
  have hsub : ∀ x ∈ rest, x ∈ w.parked := fun x hx => mem_of_mem_rest hb hx
  have hrows : ∀ d ∈ w.indexes ++ [b.def_], defs d.indexOid = some d := by
    intro d hd
    rcases mem_snoc.mp hd with hd | rfl
    · exact h.rows d hd
    · exact h.parked b hmem
  have heq : (({ w.close rest b.requestId with
      indexes := w.indexes ++ [b.def_], device := device } : World π ε).done b.ownerCore
        b.def_.indexOid true).desk = { w.desk with
          parked := rest.map PendingIndexBuild.ask
          arrived := update w.desk.arrived b.ask.request none
          dones := w.desk.dones ++ [⟨b.ask.worker, b.ask.item, true⟩]
          rows := w.desk.rows ++ [⟨b.ask.item, b.ask.target⟩] } := by
    simp [World.desk, World.close, World.done, map_update, BuildDone.done,
      PendingIndexBuild.ask, rowOf]
  refine { h with
    desk := ?_, parked := ?_, rows := hrows, device := ?_, committed := ?_, building := ?_
    built := ?_, arrived := ?_, published := ?_, accounted := ?_ }
  · exact heq ▸ h.desk.published ((deliver_perm hb).map PendingIndexBuild.ask) harr₀
  · exact fun x hx => h.parked x (hsub x hx)
  · intro d hd
    rcases hdevice with rfl | rfl
    · exact h.device d hd
    · exact hrows d hd
  · intro m hm hc
    rcases mem_snoc.mp hm with hm | rfl
    · obtain ⟨d, hd, hid⟩ := h.committed m hm hc
      exact ⟨d, mem_append_left _ hd, hid⟩
    · exact ⟨b.def_, mem_concat_self, rfl,
        (h.desk.parked b.ask (mem_map_of_mem hmem)).1⟩
  · exact fun q hq x hx => h.building q hq x (hsub x hx)
  · exact fun p hp hgood x hx => h.built p hp hgood x (hsub x hx)
  · exact fun x hx harr => h.arrived x (hsub x hx) (h.arrived_rest hb hx
      ((congrFun (congrArg Lib.Desk.arrived heq) _).symm.trans harr))
  · intro d hd
    rcases mem_snoc.mp hd with hd | rfl
    · obtain ⟨h₁, h₂⟩ := h.published d hd
      exact ⟨h₁, h₂.imp_right fun ⟨hknown, hin⟩ => ⟨hknown, device_kept hdevice hd hin⟩⟩
    · obtain ⟨hopen, hcomplete⟩ := h.arrived b hmem harr₀
      exact ⟨hcomplete, .inl hopen⟩
  · intro core e he
    have := h.accounted_close hb true core he
    unfold Accounted at this ⊢
    rw [desk_close] at this
    rw [heq]
    exact this

theorem Inv.flush (h : Inv entryOf ownerOf ticket defs w) :
    Inv entryOf ownerOf ticket defs { w with device := w.indexes } :=
  { h with
    device := h.rows
    published := fun d hd => by
      obtain ⟨h₁, h₂⟩ := h.published d hd
      exact ⟨h₁, h₂.imp_right fun ⟨hknown, _⟩ => ⟨hknown, hd⟩⟩ }

theorem Inv.setCore (h : Inv entryOf ownerOf ticket defs w) {owner' : OwnerCore π ε}
    (hwindows : owner'.windows = (w.cores c).windows) (horderly : owner'.store.Orderly)
    (hknown : ∀ d ∈ w.device, d ∈ (w.cores c).store.known → d ∈ owner'.store.known)
    (hcomplete : ∀ d, (∃ e ∈ (w.cores c).windows, e.tableOid = d.tableOid) ∨
      d ∈ (w.cores c).store.known → (w.cores c).store.Complete entryOf d →
      owner'.store.Complete entryOf d) :
    Inv entryOf ownerOf ticket defs (w.setCore c owner') := by
  have hopened : ∀ d : IndexDef, Opened ownerOf w.cores d →
      Opened ownerOf (update w.cores c owner') d := fun d hd =>
    hd.update fun x hx _ => hwindows ▸ hx
  have hwin : ∀ core, (update w.cores c owner' core).windows = (w.cores core).windows :=
    forall_update (P := fun core o => o.windows = (w.cores core).windows) (fun _ => rfl) hwindows
  have hready : ∀ d, Opened ownerOf w.cores d → Complete entryOf ownerOf w.cores d →
      Complete entryOf ownerOf (update w.cores c owner') d := by
    rintro d ⟨e, he, -, htable⟩ hd
    refine hd.update fun hc hstore => hcomplete d (.inl ⟨e, ?_, htable⟩) hstore
    rw [hc]
    exact he
  refine { h with
    orderly := forall_update (P := fun _ o => o.store.Orderly) h.orderly horderly
    windowsOnce := fun core => ?_, windowsBelow := fun core x hx => ?_
    unopened := fun q hq core x hx => ?_, building := ?_, built := ?_, arrived := ?_
    published := ?_, accounted := fun core x hx => ?_ }
  · exact (congrArg (fun l : List Window => (l.map (·.indexOid)).Nodup) (hwin core)).mpr
      (h.windowsOnce core)
  · exact h.windowsBelow core x ((hwin core) ▸ hx)
  · exact h.unopened q hq core x ((hwin core) ▸ hx)
  · exact fun q hq b hb hid => hopened _ (h.building q hq b hb hid)
  · intro p hp hgood b hb hid
    obtain ⟨h₁, h₂⟩ := h.built p hp hgood b hb hid
    exact ⟨hopened _ h₁, hready _ h₁ h₂⟩
  · intro b hb harr
    obtain ⟨h₁, h₂⟩ := h.arrived b hb harr
    exact ⟨hopened _ h₁, hready _ h₁ h₂⟩
  · intro d hd
    obtain ⟨h₁, h₂⟩ := h.published d hd
    rcases h₂ with hopen | ⟨hin, hdevice⟩
    · exact ⟨hready d hopen h₁, .inl (hopened d hopen)⟩
    · refine ⟨h₁.update fun hc hstore => hcomplete d (.inr ?_) hstore,
        .inr ⟨known_update hin (hknown d hdevice), hdevice⟩⟩
      rw [hc]
      exact hin
  · exact h.accounted core x ((hwin core) ▸ hx)

section

variable [DecidableEq ε]

end

-- A statement begins

theorem Inv.burn (h : Inv entryOf ownerOf ticket defs w) :
    Inv entryOf ownerOf ticket defs { w with
      nextIndexOid := w.nextIndexOid + 1, nextRemoteRequest := w.nextRemoteRequest + 1 } :=
  { h with
    desk := h.desk.burn (Nat.le_succ _) (Nat.le_succ _)
    below := fun id d hd => Nat.lt_succ_of_lt (h.below id d hd)
    windowsBelow := fun core e he => Nat.lt_succ_of_lt (h.windowsBelow core e he) }

theorem Inv.begin_ (h : Inv entryOf ownerOf ticket defs w) (d : IndexDef)
    (hd : d.indexOid = w.nextIndexOid) (tableName : String) (deadline : Nat) :
    Inv entryOf ownerOf
      (update ticket w.nextIndexOid (some (w.nextRemoteRequest, d.tableOid)))
      (update defs w.nextIndexOid (some d))
      { w with
        nextIndexOid := w.nextIndexOid + 1
        nextRemoteRequest := w.nextRemoteRequest + 1
        waiting := update w.waiting w.nextRemoteRequest
          (some { deadlineNs := deadline })
        requests := w.requests ++ [⟨ownerOf d.tableOid, w.nextRemoteRequest, d⟩]
        parked := w.parked ++
          [⟨w.nextRemoteRequest, ownerOf d.tableOid, d, tableName⟩] } := by
  have hkeep : ∀ x : IndexDef, defs x.indexOid = some x →
      update defs w.nextIndexOid (some d) x.indexOid = some x := fun x hx => by
    have hlt := h.below x.indexOid x hx
    rw [update_of_ne (by omega)]
    exact hx
  have hnew : update defs w.nextIndexOid (some d) d.indexOid = some d := by
    rw [hd, update_self]
  have hperm : (w.requests.map BuildRequest.ask ++ w.builds.map BuildRequest.ask ++
      [(⟨w.nextRemoteRequest, w.nextIndexOid, d.tableOid, ownerOf d.tableOid⟩ : Lib.Ask)]).Perm
        (w.requests.map BuildRequest.ask ++
          [⟨w.nextRemoteRequest, w.nextIndexOid, d.tableOid, ownerOf d.tableOid⟩] ++
          w.builds.map BuildRequest.ask) := by
    rw [append_assoc, append_assoc]
    exact List.Perm.append_left _ perm_append_comm
  have hrequest : ∀ b ∈ w.parked, b.requestId ≠ w.nextRemoteRequest := fun b hb heq => by
    have hlt := (h.desk.issued _ _ _ (h.desk.parked b.ask (mem_map_of_mem hb)).2).2
    have hlt : b.requestId < w.nextRemoteRequest := hlt
    omega
  refine { h with
    desk := ?_, asked := ?_, parked := ?_, rows := fun x hx => hkeep x (h.rows x hx)
    device := fun x hx => hkeep x (h.device x hx), below := ?_
    windowsBelow := fun core e he => Nat.lt_succ_of_lt (h.windowsBelow core e he), unopened := ?_
    building := ?_, built := ?_, arrived := ?_, accounted := ?_ }
  · have hbegun := (h.desk.begin_ d.tableOid).reorder hperm
    have heq : World.desk { w with
        nextIndexOid := w.nextIndexOid + 1
        nextRemoteRequest := w.nextRemoteRequest + 1
        waiting := update w.waiting w.nextRemoteRequest
          (some { deadlineNs := deadline })
        requests := w.requests ++ [⟨ownerOf d.tableOid, w.nextRemoteRequest, d⟩]
        parked := w.parked ++ [⟨w.nextRemoteRequest, ownerOf d.tableOid, d, tableName⟩] } =
        { w.desk with
          nextRequest := w.desk.nextRequest + 1
          nextItem := w.desk.nextItem + 1
          parked := w.desk.parked ++
            [⟨w.desk.nextRequest, w.desk.nextItem, d.tableOid, ownerOf d.tableOid⟩]
          arrived := update w.desk.arrived w.desk.nextRequest (some none)
          asked := w.requests.map BuildRequest.ask ++
            [⟨w.nextRemoteRequest, w.nextIndexOid, d.tableOid, ownerOf d.tableOid⟩] ++
            w.builds.map BuildRequest.ask } := by
      simp [World.desk, map_update, BuildOutcome.verdict, BuildRequest.ask,
        PendingIndexBuild.ask, hd]
    exact heq ▸ hbegun
  · intro q hq
    rcases mem_append.mp hq with hq | hq
    · rcases mem_snoc.mp hq with hq | rfl
      · exact hkeep _ (h.asked q (mem_append_left _ hq))
      · exact hnew
    · exact hkeep _ (h.asked q (mem_append_right _ hq))
  · intro b hb
    rcases mem_snoc.mp hb with hb | rfl
    · exact hkeep _ (h.parked b hb)
    · exact hnew
  · intro id x hx
    show id < w.nextIndexOid + 1
    by_cases hid : id = w.nextIndexOid
    · omega
    · rw [update_of_ne hid] at hx
      exact Nat.lt_succ_of_lt (h.below id x hx)
  · intro q hq core e he
    rcases mem_snoc.mp hq with hq | rfl
    · exact h.unopened q hq core e he
    · have hlt := h.windowsBelow core e he
      show e.indexOid ≠ d.indexOid
      omega
  · intro q hq b hb hid
    rcases mem_snoc.mp hb with hb | rfl
    · exact h.building q hq b hb hid
    · have hlt := h.below _ _ (h.asked q (mem_append_right _ hq))
      exact absurd (hd.symm.trans hid) (by omega)
  · intro p hp hgood b hb hid
    rcases mem_snoc.mp hb with hb | rfl
    · exact h.built p hp hgood b hb hid
    · obtain ⟨t, -, ht⟩ := h.desk.answer p.answer (mem_map_of_mem hp)
      have hlt : p.indexOid < w.nextIndexOid := (h.desk.issued _ _ _ ht).1
      exact absurd (hd.symm.trans hid) (by omega)
  · intro b hb harr
    have harr : Option.map BuildOutcome.verdict (update w.waiting w.nextRemoteRequest
      (some { deadlineNs := deadline }) b.requestId) = some (some true) := harr
    rcases mem_snoc.mp hb with hb | rfl
    · rw [update_of_ne (hrequest b hb)] at harr
      exact h.arrived b hb harr
    · rw [update_self] at harr
      simp [BuildOutcome.verdict] at harr
  · intro core e he
    rcases h.accounted core e he with hq | hp | ⟨b, hb, hcore, hid, harr⟩ | hm
    · exact .inl hq
    · exact .inr (.inl hp)
    · refine .inr (.inr (.inl ⟨b, mem_append_left _ hb, hcore, hid, ?_⟩))
      show Option.map BuildOutcome.verdict (update w.waiting w.nextRemoteRequest
        (some { deadlineNs := deadline }) b.requestId) = some (some true)
      rw [update_of_ne (hrequest b hb)]
      exact harr
    · exact .inr (.inr (.inr hm))

section

variable [DecidableEq ε] {w' : World π ε}

omit [DecidableEq ε] in
theorem Inv.quiet (h : Inv entryOf ownerOf ticket defs w) (hquiet : w.Quiet) (core : Nat) :
    (w.cores core).windows = [] := by
  obtain ⟨-, hbuilds, hreplies, hdones, hparked⟩ := hquiet
  by_contra hne
  obtain ⟨e, he⟩ := exists_mem_of_ne_nil _ hne
  rcases h.accounted core e he with ⟨q, hq, -⟩ | ⟨p, hp, -⟩ | ⟨b, hb, -⟩ | ⟨m, hm, -⟩
  · simp [hbuilds] at hq
  · simp [hreplies] at hp
  · simp [hparked] at hb
  · simp [hdones] at hm

variable {e : Window}

variable {indexOid : Nat}

end

end

-- One build, for examples

/-- Core 1 owns relation 5, which has one row with two versions; an entry is the image. -/
def oneRow : World Nat Nat where
  now := 0
  nextRemoteRequest := 1
  nextIndexOid := 1
  indexes := []
  device := []
  waiting := fun _ => none
  parked := []
  requests := []
  builds := []
  replies := []
  dones := []
  cores := fun _ =>
    { store :=
        { rows := [⟨5, 1, [⟨3, some 20, true⟩, ⟨2, some 10, true⟩]⟩]
          nextTxn := 4, live := [], poisoned := [], trees := fun _ => [], known := [] }
      windows := [] }

/-- The claim's own proviso: every `done` is delivered before the window's ceiling. -/
def InTime (w : World π ε) : Action π → Prop
  | .tick core _ => ∀ e ∈ (w.cores core).windows, e.expired w.now = false
  | _ => True

end Kds.Server.IndexBuild
