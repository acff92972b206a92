/-
  Kds.Lib.Handshake

  A requester's side of a protocol in which every statement asks a worker for one item, waits for
  the answer, and ends by publishing the item or giving it up, telling the worker which.

  A `Desk` holds the parked statements with what has arrived for each, the asks that have no
  answer yet, the answers and the `done` messages on their way, and the published items.  The
  messages are delivered in any order, so a lemma takes out one of a list up to permutation.

  `DeskInv` follows an item through the protocol: a ticket fixes the request and the target it was
  asked under; it has one message on its way at most until its answer is received; and a published
  item is neither asked for, nor parked, nor being given up.  One lemma for each move.
-/

import Kds.Lib.Lists
import Kds.Lib.InFlight
import Mathlib.Logic.Function.Basic

namespace Kds.Lib

open List
open Function (update update_self update_of_ne)

-- The desk

/-- A statement's ask: its request, the item it wants, what for, and of which worker. -/
structure Ask where
  request : Nat
  item : Nat
  target : Nat
  worker : Nat
  deriving DecidableEq

structure Answer where
  request : Nat
  item : Nat
  worker : Nat
  good : Bool
  deriving DecidableEq

structure Done where
  worker : Nat
  item : Nat
  committed : Bool
  deriving DecidableEq

/-- A published item and its target. -/
structure Row where
  item : Nat
  target : Nat
  deriving DecidableEq

/-- `arrived r` is `none` where no statement waits under the request, and otherwise what is in:
    nothing yet, or whether the answer was good. -/
structure Desk where
  nextRequest : Nat
  nextItem : Nat
  parked : List Ask
  arrived : Nat → Option (Option Bool)
  asked : List Ask
  answers : List Answer
  dones : List Done
  rows : List Row

/-- An item's request and target, fixed when it was asked for. -/
abbrev Tickets := Nat → Option (Nat × Nat)

namespace Desk

/-- The items with a message on its way to the requester. -/
def flying (d : Desk) : List Nat := d.asked.map (·.item) ++ d.answers.map (·.item)

/-- The items some worker is about to be told to give up. -/
def Aborted (d : Desk) (item : Nat) : Prop :=
  ∃ m ∈ d.dones, m.committed = false ∧ m.item = item

theorem mem_flying {d : Desk} {item : Nat} :
    item ∈ d.flying ↔ (∃ a ∈ d.asked, a.item = item) ∨ ∃ p ∈ d.answers, p.item = item := by
  simp [flying]

end Desk

/-- **The desk's invariant.** -/
structure DeskInv (workerOf : Nat → Nat) (ticket : Tickets) (d : Desk) : Prop where
  issued : ∀ item r t, ticket item = some (r, t) → item < d.nextItem ∧ r < d.nextRequest
  inj : ∀ i i' r t t', ticket i = some (r, t) → ticket i' = some (r, t') → i = i'
  ask : ∀ a ∈ d.asked, a.worker = workerOf a.target ∧ ticket a.item = some (a.request, a.target)
  answer : ∀ p ∈ d.answers, ∃ t, p.worker = workerOf t ∧ ticket p.item = some (p.request, t)
  parked : ∀ b ∈ d.parked, b.worker = workerOf b.target ∧ ticket b.item = some (b.request, b.target)
  parkedOnce : (d.parked.map (·.item)).Nodup
  waited : ∀ b ∈ d.parked, d.arrived b.request ≠ none
  waiter : ∀ r, d.arrived r ≠ none → ∃ b ∈ d.parked, b.request = r
  flyingOnce : d.flying.Nodup
  rowsOnce : (d.rows.map (·.item)).Nodup
  rowBelow : ∀ row ∈ d.rows, row.item < d.nextItem
  abortedBelow : ∀ item, d.Aborted item → item < d.nextItem
  rowSettled : ∀ row ∈ d.rows,
    row.item ∉ d.flying ∧ (∀ b ∈ d.parked, b.item ≠ row.item) ∧ ¬ d.Aborted row.item
  parkedKept : ∀ b ∈ d.parked, ¬ d.Aborted b.item
  arrivedOnce : ∀ b ∈ d.parked, ∀ good, d.arrived b.request = some (some good) → b.item ∉ d.flying

theorem map_update {β γ : Type*} (f : β → γ) (waiting : Nat → Option β) (r : Nat)
    (out : Option β) : (fun r' => (update waiting r out r').map f) =
      update (fun r' => (waiting r').map f) r (out.map f) :=
  Function.comp_update (Option.map f) waiting r out

namespace DeskInv

variable {workerOf : Nat → Nat} {ticket : Tickets} {d : Desk} {b a : Ask} {p : Answer}
    {rest : List Ask}

theorem same_parked (h : DeskInv workerOf ticket d) {b' : Ask} (hb : b ∈ d.parked)
    (hb' : b' ∈ d.parked) (hr : b.request = b'.request) : b.item = b'.item := by
  have h₁ := (h.parked b hb).2
  rw [hr] at h₁
  exact h.inj _ _ _ _ _ h₁ (h.parked b' hb').2

theorem same_request (h : DeskInv workerOf ticket d) (hb : b ∈ d.parked) (hp : p ∈ d.answers) :
    b.request = p.request ↔ b.item = p.item := by
  have h₁ := (h.parked b hb).2
  obtain ⟨t, -, h₂⟩ := h.answer p hp
  constructor
  · intro heq
    rw [heq] at h₁
    exact h.inj _ _ _ _ _ h₁ h₂
  · intro heq
    rw [heq, h₂] at h₁
    exact (congrArg Prod.fst (Option.some.inj h₁)).symm

theorem same_worker (h : DeskInv workerOf ticket d) (hb : b ∈ d.parked) (hp : p ∈ d.answers)
    (hitem : b.item = p.item) : b.worker = p.worker := by
  obtain ⟨hworker, h₁⟩ := h.parked b hb
  obtain ⟨t, hp', h₂⟩ := h.answer p hp
  rw [hitem, h₂] at h₁
  rw [hworker, hp', (Prod.mk.inj (Option.some.inj h₁)).2]

theorem same_ask (h : DeskInv workerOf ticket d) (ha : a ∈ d.asked) (hb : b ∈ d.parked)
    (hitem : b.item = a.item) : b.worker = a.worker ∧ b.target = a.target := by
  obtain ⟨hworker, h₁⟩ := h.parked b hb
  obtain ⟨ha', h₂⟩ := h.ask a ha
  rw [hitem, h₂] at h₁
  have ht := (Prod.mk.inj (Option.some.inj h₁)).2
  exact ⟨by rw [hworker, ha', ht], ht.symm⟩

theorem asked_once (h : DeskInv workerOf ticket d) : (d.asked.map (·.item)).Nodup :=
  (nodup_append.mp h.flyingOnce).1

theorem burn (h : DeskInv workerOf ticket d) {r i : Nat} (hr : d.nextRequest ≤ r)
    (hi : d.nextItem ≤ i) :
    DeskInv workerOf ticket { d with nextRequest := r, nextItem := i } :=
  { h with
    issued := fun item r' t ht => by
      obtain ⟨h₁, h₂⟩ := h.issued item r' t ht
      exact ⟨Nat.lt_of_lt_of_le h₁ hi, Nat.lt_of_lt_of_le h₂ hr⟩
    rowBelow := fun row hrow => Nat.lt_of_lt_of_le (h.rowBelow row hrow) hi
    abortedBelow := fun item hab => Nat.lt_of_lt_of_le (h.abortedBelow item hab) hi }

theorem reorder (h : DeskInv workerOf ticket d) {asked' : List Ask} (hperm : d.asked.Perm asked') :
    DeskInv workerOf ticket { d with asked := asked' } := by
  have hflying : d.flying.Perm (Desk.flying { d with asked := asked' }) :=
    (hperm.map _).append_right _
  exact { h with
    ask := fun a ha => h.ask a (hperm.mem_iff.mpr ha)
    flyingOnce := hflying.nodup_iff.mp h.flyingOnce
    rowSettled := fun row hrow => by
      obtain ⟨h₁, h₂, h₃⟩ := h.rowSettled row hrow
      exact ⟨fun hin => h₁ (hflying.mem_iff.mpr hin), h₂, h₃⟩
    arrivedOnce := fun b hb good harr hin =>
      h.arrivedOnce b hb good harr (hflying.mem_iff.mpr hin) }

theorem answered (h : DeskInv workerOf ticket d) (hperm : d.asked.Perm (a :: rest)) (good : Bool) :
    DeskInv workerOf ticket { d with
      asked := rest
      answers := d.answers ++ [⟨a.request, a.item, a.worker, good⟩] } := by
  have hflying : d.flying.Perm (Desk.flying { d with
      asked := rest
      answers := d.answers ++ [⟨a.request, a.item, a.worker, good⟩] }) := by
    unfold Desk.flying
    refine ((hperm.map _).append_right _).trans ?_
    rw [map_cons, cons_append, map_append, map_cons, map_nil,
      ← append_assoc]
    exact (perm_append_singleton _ _).symm
  have ha : a ∈ d.asked := hperm.mem_iff.mpr (mem_cons_self ..)
  exact { h with
    ask := fun x hx => h.ask x (hperm.mem_iff.mpr (mem_cons_of_mem _ hx))
    answer := by
      intro p hp
      rcases Lib.mem_snoc.mp hp with hp | rfl
      · exact h.answer p hp
      · obtain ⟨hworker, ht⟩ := h.ask a ha
        exact ⟨a.target, hworker, ht⟩
    flyingOnce := hflying.nodup_iff.mp h.flyingOnce
    rowSettled := fun row hrow => by
      obtain ⟨h₁, h₂, h₃⟩ := h.rowSettled row hrow
      exact ⟨fun hin => h₁ (hflying.mem_iff.mpr hin), h₂, h₃⟩
    arrivedOnce := fun b hb good' harr hin =>
      h.arrivedOnce b hb good' harr (hflying.mem_iff.mpr hin) }

theorem not_asked_of_answered (h : DeskInv workerOf ticket d) (hperm : d.asked.Perm (a :: rest)) :
    ∀ x ∈ rest, x.item ≠ a.item := by
  intro x hx heq
  have hnodup := (hperm.map (·.item)).nodup_iff.mp h.asked_once
  exact (nodup_cons.mp hnodup).1 (mem_map.mpr ⟨x, hx, heq⟩)

-- A statement begins

theorem begin_ (h : DeskInv workerOf ticket d) (target : Nat) :
    DeskInv workerOf (update ticket d.nextItem (some (d.nextRequest, target)))
      { d with
        nextRequest := d.nextRequest + 1
        nextItem := d.nextItem + 1
        parked := d.parked ++ [⟨d.nextRequest, d.nextItem, target, workerOf target⟩]
        arrived := update d.arrived d.nextRequest (some none)
        asked := d.asked ++ [⟨d.nextRequest, d.nextItem, target, workerOf target⟩] } := by
  have hne : ∀ {i r t}, ticket i = some (r, t) → i ≠ d.nextItem := fun ht heq =>
    absurd (h.issued _ _ _ ht).1 (by omega)
  have hkeep : ∀ {i r t}, ticket i = some (r, t) →
      update ticket d.nextItem (some (d.nextRequest, target)) i = some (r, t) :=
    fun ht => by rw [update_of_ne (hne ht), ht]
  have hrequest : ∀ b ∈ d.parked, b.request ≠ d.nextRequest := fun b hb heq =>
    absurd (h.issued _ _ _ (h.parked b hb).2).2 (by omega)
  have hfresh : d.nextItem ∉ d.flying := by
    intro hin
    rcases Desk.mem_flying.mp hin with ⟨a, ha, hitem⟩ | ⟨p, hp, hitem⟩
    · exact hne (h.ask a ha).2 hitem
    · obtain ⟨t, -, ht⟩ := h.answer p hp
      exact hne ht hitem
  have hperm : ((d.asked ++ [(⟨d.nextRequest, d.nextItem, target, workerOf target⟩ : Ask)]).map
      (·.item) ++ d.answers.map (·.item)).Perm (d.nextItem :: d.flying) := by
    unfold Desk.flying
    rw [map_append, map_cons, map_nil, append_assoc]
    exact perm_middle
  refine ⟨?_, ?_, ?_, ?_, ?_, ?_, ?_, ?_, ?_, h.rowsOnce, ?_, ?_, ?_, ?_, ?_⟩
  · intro i r t ht
    show i < d.nextItem + 1 ∧ r < d.nextRequest + 1
    by_cases hi : i = d.nextItem
    · rw [hi, update_self] at ht
      obtain ⟨rfl, -⟩ := Prod.mk.inj (Option.some.inj ht)
      omega
    · rw [update_of_ne hi] at ht
      have := h.issued i r t ht
      omega
  · intro i i' r t t' ht ht'
    by_cases hi : i = d.nextItem
    · by_cases hi' : i' = d.nextItem
      · rw [hi, hi']
      · rw [update_of_ne hi'] at ht'
        rw [hi, update_self] at ht
        obtain ⟨rfl, -⟩ := Prod.mk.inj (Option.some.inj ht)
        exact absurd (h.issued _ _ _ ht').2 (Nat.lt_irrefl _)
    · rw [update_of_ne hi] at ht
      by_cases hi' : i' = d.nextItem
      · rw [hi', update_self] at ht'
        obtain ⟨rfl, -⟩ := Prod.mk.inj (Option.some.inj ht')
        exact absurd (h.issued _ _ _ ht).2 (Nat.lt_irrefl _)
      · rw [update_of_ne hi'] at ht'
        exact h.inj _ _ _ _ _ ht ht'
  · intro a ha
    rcases Lib.mem_snoc.mp ha with ha | rfl
    · exact ⟨(h.ask a ha).1, hkeep (h.ask a ha).2⟩
    · exact ⟨rfl, update_self ..⟩
  · intro p hp
    obtain ⟨t, hworker, ht⟩ := h.answer p hp
    exact ⟨t, hworker, hkeep ht⟩
  · intro b hb
    rcases Lib.mem_snoc.mp hb with hb | rfl
    · exact ⟨(h.parked b hb).1, hkeep (h.parked b hb).2⟩
    · exact ⟨rfl, update_self ..⟩
  · refine (congrArg List.Nodup (map_append ..)).mpr (nodup_append.mpr ?_)
    refine ⟨h.parkedOnce, by simp, ?_⟩
    rintro x hx y hy rfl
    obtain ⟨b, hb, hbx⟩ := mem_map.mp hx
    exact hne (h.parked b hb).2 (hbx.trans (mem_singleton.mp hy))
  · intro b hb
    show update d.arrived d.nextRequest (some none) b.request ≠ none
    rcases Lib.mem_snoc.mp hb with hb | rfl
    · rw [update_of_ne (hrequest b hb)]
      exact h.waited b hb
    · simp
  · intro r hr
    by_cases heq : r = d.nextRequest
    · exact ⟨_, mem_concat_self, heq.symm⟩
    · have hr : update d.arrived d.nextRequest (some none) r ≠ none := hr
      rw [update_of_ne heq] at hr
      obtain ⟨b, hb, hbr⟩ := h.waiter r hr
      exact ⟨b, mem_append_left _ hb, hbr⟩
  · exact hperm.nodup_iff.mpr (nodup_cons.mpr ⟨hfresh, h.flyingOnce⟩)
  · exact fun row hrow => Nat.lt_succ_of_lt (h.rowBelow row hrow)
  · exact fun i hab => Nat.lt_succ_of_lt (h.abortedBelow i hab)
  · intro row hrow
    obtain ⟨h₁, h₂, h₃⟩ := h.rowSettled row hrow
    have hrowne : row.item ≠ d.nextItem := Nat.ne_of_lt (h.rowBelow row hrow)
    refine ⟨fun hin => ?_, fun b hb => ?_, h₃⟩
    · exact (mem_cons.mp (hperm.mem_iff.mp hin)).elim hrowne h₁
    · rcases Lib.mem_snoc.mp hb with hb | rfl
      · exact h₂ b hb
      · exact hrowne.symm
  · intro b hb hab
    rcases Lib.mem_snoc.mp hb with hb | rfl
    · exact h.parkedKept b hb hab
    · exact absurd (h.abortedBelow _ hab) (Nat.lt_irrefl _)
  · intro b hb good harr hin
    have harr : update d.arrived d.nextRequest (some none) b.request =
      some (some good) := harr
    rcases Lib.mem_snoc.mp hb with hb | rfl
    · rw [update_of_ne (hrequest b hb)] at harr
      refine h.arrivedOnce b hb good harr ?_
      exact (mem_cons.mp (hperm.mem_iff.mp hin)).resolve_left (hne (h.parked b hb).2)
    · rw [update_self] at harr
      cases harr

-- An answer is received

section

variable {p : Answer} {rest : List Answer}

theorem flying_received (hperm : d.answers.Perm (p :: rest)) :
    d.flying.Perm (p.item :: Desk.flying { d with answers := rest }) :=
  (((hperm.map (·.item))).append_left _).trans perm_middle

theorem received (h : DeskInv workerOf ticket d) (hperm : d.answers.Perm (p :: rest)) :
    DeskInv workerOf ticket { d with answers := rest } := by
  have hflying := flying_received (d := d) hperm
  have hsub : ∀ i, i ∈ Desk.flying { d with answers := rest } → i ∈ d.flying := fun i hin =>
    hflying.mem_iff.mpr (mem_cons_of_mem _ hin)
  exact { h with
    answer := fun x hx => h.answer x (hperm.mem_iff.mpr (mem_cons_of_mem _ hx))
    flyingOnce := (nodup_cons.mp (hflying.nodup_iff.mp h.flyingOnce)).2
    rowSettled := fun row hrow => by
      obtain ⟨h₁, h₂, h₃⟩ := h.rowSettled row hrow
      exact ⟨fun hin => h₁ (hsub _ hin), h₂, h₃⟩
    arrivedOnce := fun b hb good harr hin => h.arrivedOnce b hb good harr (hsub _ hin) }

theorem landed (h : DeskInv workerOf ticket d) (hperm : d.answers.Perm (p :: rest))
    (hwaits : d.arrived p.request ≠ none) :
    DeskInv workerOf ticket { d with
      answers := rest
      arrived := update d.arrived p.request (some (some p.good)) } := by
  have hmem : p ∈ d.answers := hperm.mem_iff.mpr (mem_cons_self ..)
  have hgone : p.item ∉ Desk.flying { d with answers := rest } :=
    (nodup_cons.mp ((flying_received (d := d) hperm).nodup_iff.mp h.flyingOnce)).1
  have hbase := h.received hperm
  exact { hbase with
    waited := fun b hb => by
      show update d.arrived p.request (some (some p.good)) b.request ≠ none
      by_cases hr : b.request = p.request
      · rw [hr, update_self]
        simp
      · rw [update_of_ne hr]
        exact h.waited b hb
    waiter := fun r hr => by
      by_cases heq : r = p.request
      · subst heq
        exact h.waiter _ hwaits
      · have hr : update d.arrived p.request (some (some p.good)) r ≠ none := hr
        rw [update_of_ne heq] at hr
        exact h.waiter r hr
    arrivedOnce := fun b hb good harr hin => by
      by_cases hr : b.request = p.request
      · exact hgone ((h.same_request hb hmem).mp hr ▸ hin)
      · have harr : update d.arrived p.request (some (some p.good)) b.request =
          some (some good) := harr
        rw [update_of_ne hr] at harr
        exact hbase.arrivedOnce b hb good harr hin }

theorem aborted_snoc {m₀ : Done} {i : Nat}
    (hab : ∃ m ∈ d.dones ++ [m₀], m.committed = false ∧ m.item = i) :
    d.Aborted i ∨ m₀.committed = false ∧ m₀.item = i := by
  obtain ⟨m, hm, hrest⟩ := hab
  rcases Lib.mem_snoc.mp hm with hm | rfl
  · exact .inl ⟨m, hm, hrest⟩
  · exact .inr hrest

/-- An answer nobody waits for is answered: the worker is told to give the item up. -/
theorem refused (h : DeskInv workerOf ticket d) (hperm : d.answers.Perm (p :: rest))
    (hgone : d.arrived p.request = none) :
    DeskInv workerOf ticket { d with
      answers := rest
      dones := d.dones ++ [⟨p.worker, p.item, false⟩] } := by
  have hmem : p ∈ d.answers := hperm.mem_iff.mpr (mem_cons_self ..)
  have hflying : p.item ∈ d.flying := Desk.mem_flying.mpr (.inr ⟨p, hmem, rfl⟩)
  have hbase := h.received hperm
  obtain ⟨t, -, ht⟩ := h.answer p hmem
  exact { hbase with
    abortedBelow := fun i hab => (aborted_snoc hab).elim (h.abortedBelow i)
      fun heq => heq.2 ▸ (h.issued _ _ _ ht).1
    rowSettled := fun row hrow => by
      obtain ⟨h₁, h₂, h₃⟩ := hbase.rowSettled row hrow
      exact ⟨h₁, h₂, fun hab => (aborted_snoc hab).elim h₃
        fun heq => (h.rowSettled row hrow).1 (heq.2 ▸ hflying)⟩
    parkedKept := fun b hb hab => (aborted_snoc hab).elim (h.parkedKept b hb) fun heq =>
      h.waited b hb (by rw [(h.same_request hb hmem).mpr heq.2.symm, hgone]) }

end

-- A statement ends

section

variable {b₀ : Ask} {rest : List Ask}

theorem arrived_close (h : DeskInv workerOf ticket d) (hperm : d.parked.Perm (b₀ :: rest))
    {b : Ask} (hb : b ∈ rest) :
    b.item ≠ b₀.item ∧ update d.arrived b₀.request none b.request = d.arrived b.request := by
  have hb₀ : b₀ ∈ d.parked := hperm.mem_iff.mpr (mem_cons_self ..)
  have hnodup := (hperm.map (·.item)).nodup_iff.mp h.parkedOnce
  have hne : b.item ≠ b₀.item := fun heq =>
    (nodup_cons.mp hnodup).1 (mem_map.mpr ⟨b, hb, heq⟩)
  refine ⟨hne, update_of_ne (fun hr => hne ?_) _ _⟩
  exact h.same_parked (hperm.mem_iff.mpr (mem_cons_of_mem _ hb)) hb₀ hr

theorem closed (h : DeskInv workerOf ticket d) (hperm : d.parked.Perm (b₀ :: rest)) :
    DeskInv workerOf ticket { d with
      parked := rest
      arrived := update d.arrived b₀.request none } := by
  have hsub : ∀ b ∈ rest, b ∈ d.parked := fun b hb =>
    hperm.mem_iff.mpr (mem_cons_of_mem _ hb)
  exact { h with
    parked := fun b hb => h.parked b (hsub b hb)
    parkedOnce := (nodup_cons.mp ((hperm.map (·.item)).nodup_iff.mp h.parkedOnce)).2
    waited := fun b hb => by
      show update d.arrived b₀.request none b.request ≠ none
      rw [(h.arrived_close hperm hb).2]
      exact h.waited b (hsub b hb)
    waiter := fun r hr => by
      have hr : update d.arrived b₀.request none r ≠ none := hr
      by_cases heq : r = b₀.request
      · rw [heq, update_self] at hr
        exact absurd rfl hr
      · rw [update_of_ne heq] at hr
        obtain ⟨b, hb, rfl⟩ := h.waiter r hr
        rcases mem_cons.mp (hperm.mem_iff.mp hb) with rfl | hb
        · exact absurd rfl heq
        · exact ⟨b, hb, rfl⟩
    rowSettled := fun row hrow => by
      obtain ⟨h₁, h₂, h₃⟩ := h.rowSettled row hrow
      exact ⟨h₁, fun b hb => h₂ b (hsub b hb), h₃⟩
    parkedKept := fun b hb => h.parkedKept b (hsub b hb)
    arrivedOnce := fun b hb good harr => by
      have harr : update d.arrived b₀.request none b.request = some (some good) := harr
      rw [(h.arrived_close hperm hb).2] at harr
      exact h.arrivedOnce b (hsub b hb) good harr }

theorem abandoned (h : DeskInv workerOf ticket d) (hperm : d.parked.Perm (b₀ :: rest)) :
    DeskInv workerOf ticket { d with
      parked := rest
      arrived := update d.arrived b₀.request none
      dones := d.dones ++ [⟨b₀.worker, b₀.item, false⟩] } := by
  have hb₀ : b₀ ∈ d.parked := hperm.mem_iff.mpr (mem_cons_self ..)
  have hbase := h.closed hperm
  exact { hbase with
    abortedBelow := fun i hab => (aborted_snoc hab).elim (h.abortedBelow i)
      fun heq => heq.2 ▸ (h.issued _ _ _ (h.parked b₀ hb₀).2).1
    rowSettled := fun row hrow => by
      obtain ⟨h₁, h₂, h₃⟩ := hbase.rowSettled row hrow
      exact ⟨h₁, h₂, fun hab => (aborted_snoc hab).elim h₃
        fun heq => (h.rowSettled row hrow).2.1 b₀ hb₀ heq.2⟩
    parkedKept := fun b hb hab => (aborted_snoc hab).elim (hbase.parkedKept b hb)
      fun heq => (h.arrived_close hperm hb).1 heq.2.symm }

theorem published (h : DeskInv workerOf ticket d) (hperm : d.parked.Perm (b₀ :: rest))
    {good : Bool} (harr : d.arrived b₀.request = some (some good)) :
    DeskInv workerOf ticket { d with
      parked := rest
      arrived := update d.arrived b₀.request none
      dones := d.dones ++ [⟨b₀.worker, b₀.item, true⟩]
      rows := d.rows ++ [⟨b₀.item, b₀.target⟩] } := by
  have hb₀ : b₀ ∈ d.parked := hperm.mem_iff.mpr (mem_cons_self ..)
  have hbase := h.closed hperm
  have haborted : ∀ i, (∃ m ∈ d.dones ++ [(⟨b₀.worker, b₀.item, true⟩ : Done)],
      m.committed = false ∧ m.item = i) → d.Aborted i :=
    fun i hab => (aborted_snoc hab).resolve_right fun hnew => by cases hnew.1
  exact { hbase with
    rowsOnce := by
      refine (congrArg List.Nodup (map_append ..)).mpr (nodup_append.mpr ?_)
      refine ⟨h.rowsOnce, by simp, ?_⟩
      rintro x hx y hy rfl
      obtain ⟨row, hrow, hrowx⟩ := mem_map.mp hx
      exact (h.rowSettled row hrow).2.1 b₀ hb₀ (hrowx.trans (mem_singleton.mp hy)).symm
    rowBelow := fun row hrow => by
      rcases Lib.mem_snoc.mp hrow with hrow | rfl
      · exact h.rowBelow row hrow
      · exact (h.issued _ _ _ (h.parked b₀ hb₀).2).1
    abortedBelow := fun i hab => h.abortedBelow i (haborted i hab)
    rowSettled := fun row hrow => by
      rcases Lib.mem_snoc.mp hrow with hrow | rfl
      · obtain ⟨h₁, h₂, h₃⟩ := hbase.rowSettled row hrow
        exact ⟨h₁, h₂, fun hab => h₃ (haborted _ hab)⟩
      · exact ⟨h.arrivedOnce b₀ hb₀ good harr, fun b hb => (h.arrived_close hperm hb).1,
          fun hab => h.parkedKept b₀ hb₀ (haborted _ hab)⟩
    parkedKept := fun b hb hab => hbase.parkedKept b hb (haborted _ hab) }

end

-- A worker is told, an item is dropped

theorem told (h : DeskInv workerOf ticket d) {m : Done} {rest : List Done}
    (hperm : d.dones.Perm (m :: rest)) : DeskInv workerOf ticket { d with dones := rest } := by
  have haborted : ∀ i, Desk.Aborted { d with dones := rest } i → d.Aborted i := by
    rintro i ⟨x, hx, hrest⟩
    exact ⟨x, hperm.mem_iff.mpr (mem_cons_of_mem _ hx), hrest⟩
  exact { h with
    abortedBelow := fun i hab => h.abortedBelow i (haborted i hab)
    rowSettled := fun row hrow => by
      obtain ⟨h₁, h₂, h₃⟩ := h.rowSettled row hrow
      exact ⟨h₁, h₂, fun hab => h₃ (haborted _ hab)⟩
    parkedKept := fun b hb hab => h.parkedKept b hb (haborted _ hab) }

theorem dropped (h : DeskInv workerOf ticket d) {row₀ : Row} (hrow₀ : row₀ ∈ d.rows)
    {dones' : List Done} (hnew : ∀ m ∈ dones', m ∈ d.dones ∨ m.item = row₀.item) :
    DeskInv workerOf ticket { d with
      rows := d.rows.filter fun row => row.item ≠ row₀.item
      dones := dones' } := by
  have haborted : ∀ i, (∃ m ∈ dones', m.committed = false ∧ m.item = i) →
      d.Aborted i ∨ row₀.item = i := by
    rintro i ⟨m, hm, hc, hi⟩
    rcases hnew m hm with hm | heq
    · exact .inl ⟨m, hm, hc, hi⟩
    · exact .inr (heq.symm.trans hi)
  have hsub : ∀ row ∈ d.rows.filter (fun row => row.item ≠ row₀.item),
      row ∈ d.rows ∧ row.item ≠ row₀.item := fun row hrow => by
    simpa using mem_filter.mp hrow
  exact { h with
    rowsOnce := h.rowsOnce.sublist (filter_sublist.map _)
    rowBelow := fun row hrow => h.rowBelow row (hsub row hrow).1
    abortedBelow := fun i hab => (haborted i hab).elim (h.abortedBelow i)
      fun heq => heq ▸ h.rowBelow row₀ hrow₀
    rowSettled := fun row hrow => by
      obtain ⟨hrow, hne⟩ := hsub row hrow
      obtain ⟨h₁, h₂, h₃⟩ := h.rowSettled row hrow
      exact ⟨h₁, h₂, fun hab => (haborted _ hab).elim h₃ fun heq => hne heq.symm⟩
    parkedKept := fun b hb hab => (haborted _ hab).elim (h.parkedKept b hb)
      fun heq => (h.rowSettled row₀ hrow₀).2.1 b hb heq.symm }

end DeskInv

end Kds.Lib
