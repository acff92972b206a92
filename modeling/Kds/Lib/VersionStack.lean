/-
  Kds.Lib.VersionStack

  The versions of one row, newest first, and what is left of them when transactions end.  Each
  version has a writer, writers may still be in flight, and a row is written by one in-flight
  writer at a time: its versions lie on top of the settled ones (`Layered`).  If some of the
  in-flight writers go on to abort and the others to commit, the row is then its first version
  whose writer does not abort (`outcome`).

  A layered row has two outcomes only, its top version and its first settled one
  (`Layered.outcome_eq`), which is what makes a property of every outcome a finite check.
-/

import Kds.Lib.Lists
import Mathlib.Data.List.Basic
import Mathlib.Data.List.TakeWhile

namespace Kds.Lib

open List

variable {V : Type*} (writer : V → Nat)

/-- A row's version once the writers in `aborted` are gone and the others have committed. -/
def outcome (aborted : List Nat) (stack : List V) : Option V :=
  stack.find? fun v => decide (writer v ∉ aborted)

/-- The row without the top versions of one writer. -/
def dropWriter (id : Nat) (stack : List V) : List V :=
  stack.dropWhile fun v => decide (writer v = id)

/-- One in-flight writer's versions on top of settled ones. -/
def Layered (active : List Nat) (stack : List V) : Prop :=
  ∃ id top settled, stack = top ++ settled ∧ (∀ v ∈ top, writer v = id ∧ id ∈ active) ∧
    ∀ v ∈ settled, writer v ∉ active

variable {writer} {active aborted : List Nat} {stack : List V} {v : V}

-- Outcomes

@[simp] theorem outcome_nil : outcome writer aborted [] = none := rfl

theorem outcome_cons_of_mem (h : writer v ∈ aborted) :
    outcome writer aborted (v :: stack) = outcome writer aborted stack :=
  List.find?_cons_of_neg (by simp [h])

theorem outcome_cons_of_not_mem (h : writer v ∉ aborted) :
    outcome writer aborted (v :: stack) = some v :=
  List.find?_cons_of_pos (by simp [h])

theorem outcome_congr {aborted' : List Nat}
    (h : ∀ v ∈ stack, (writer v ∈ aborted ↔ writer v ∈ aborted')) :
    outcome writer aborted stack = outcome writer aborted' stack := by
  induction stack with
  | nil => rfl
  | cons v rest ih =>
    have hv := h v mem_cons_self
    have hrest := ih fun u hu => h u (mem_cons_of_mem v hu)
    by_cases hmem : writer v ∈ aborted
    · rw [outcome_cons_of_mem hmem, outcome_cons_of_mem (hv.mp hmem), hrest]
    · rw [outcome_cons_of_not_mem hmem, outcome_cons_of_not_mem (mt hv.mpr hmem)]

theorem outcome_append_of_aborted {top : List V} (h : ∀ v ∈ top, writer v ∈ aborted) :
    outcome writer aborted (top ++ stack) = outcome writer aborted stack := by
  induction top with
  | nil => rfl
  | cons v rest ih =>
    rw [cons_append, outcome_cons_of_mem (h v mem_cons_self)]
    exact ih fun u hu => h u (mem_cons_of_mem v hu)

theorem outcome_of_settled (h : ∀ v ∈ stack, writer v ∉ aborted) :
    outcome writer aborted stack = stack.head? := by
  cases stack with
  | nil => rfl
  | cons v rest => exact outcome_cons_of_not_mem (h v mem_cons_self)

-- Layered rows

namespace Layered

theorem nil : Layered writer active [] :=
  ⟨0, [], [], rfl, fun _ h => (by cases h), fun _ h => (by cases h)⟩

/-- **The two outcomes** of a layered row: its top version, or its first settled one. -/
theorem outcome_eq (h : Layered writer active stack) (hsub : aborted ⊆ active) {top : V}
    (htop : stack.head? = some top) :
    outcome writer aborted stack =
      if writer top ∈ aborted then outcome writer active stack else some top := by
  obtain ⟨id, seg, settled, rfl, hseg, hsettled⟩ := h
  split_ifs with hmem
  · have hin : ∀ v ∈ seg, writer v ∈ aborted := fun v hv => by
      have hid : writer top = id := by
        cases seg with
        | nil => cases hv
        | cons u rest =>
          rw [← Option.some.inj htop]
          exact (hseg u mem_cons_self).1
      rw [(hseg v hv).1, ← hid]
      exact hmem
    rw [outcome_append_of_aborted hin, outcome_append_of_aborted fun v hv => hsub (hin v hv),
      outcome_of_settled hsettled, outcome_of_settled fun v hv hm => hsettled v hv (hsub hm)]
  · obtain ⟨rest, hrest⟩ : ∃ rest, seg ++ settled = top :: rest := by
      cases hs : seg ++ settled with
      | nil => rw [hs] at htop; cases htop
      | cons u rest =>
        rw [hs] at htop
        exact ⟨rest, by rw [Option.some.inj htop]⟩
    rw [hrest, outcome_cons_of_not_mem hmem]

theorem push (h : Layered writer active stack) (hactive : writer v ∈ active)
    (htop : ∀ top, stack.head? = some top → writer top = writer v ∨ writer top ∉ active) :
    Layered writer active (v :: stack) := by
  obtain ⟨id, seg, settled, rfl, hseg, hsettled⟩ := h
  cases seg with
  | nil =>
    refine ⟨writer v, [v], settled, rfl, fun u hu => ?_, hsettled⟩
    rw [mem_singleton.mp hu]
    exact ⟨rfl, hactive⟩
  | cons u rest =>
    have hu := hseg u mem_cons_self
    have hid : writer v = id := by
      rcases htop u rfl with heq | hnot
      · rw [← heq, hu.1]
      · rw [hu.1] at hnot
        exact absurd hu.2 hnot
    refine ⟨id, v :: u :: rest, settled, rfl, fun w hw => ?_, hsettled⟩
    rcases mem_cons.mp hw with rfl | hw
    · exact ⟨hid, hu.2⟩
    · exact hseg w hw

theorem mono {active' : List Nat} (h : Layered writer active stack) (hsub : active' ⊆ active) :
    Layered writer active' stack := by
  obtain ⟨id, seg, settled, rfl, hseg, hsettled⟩ := h
  by_cases hid : id ∈ active'
  · exact ⟨id, seg, settled, rfl, fun v hv => ⟨(hseg v hv).1, hid⟩,
      fun v hv hm => hsettled v hv (hsub hm)⟩
  · refine ⟨id, [], seg ++ settled, rfl, fun _ hv => (by cases hv), fun v hv hm => ?_⟩
    rcases mem_append.mp hv with hv | hv
    · rw [(hseg v hv).1] at hm
      exact hid hm
    · exact hsettled v hv (hsub hm)

variable {id : Nat}

theorem append_active (h : Layered writer active stack) (hnew : ∀ v ∈ stack, writer v ≠ id) :
    Layered writer (active ++ [id]) stack := by
  obtain ⟨id', seg, settled, rfl, hseg, hsettled⟩ := h
  refine ⟨id', seg, settled, rfl, fun v hv => ⟨(hseg v hv).1, ?_⟩, fun v hv hm => ?_⟩
  · exact mem_append_left _ (hseg v hv).2
  · rcases Lib.mem_snoc.mp hm with hm | hm
    · exact hsettled v hv hm
    · exact hnew v (mem_append_right _ hv) hm

theorem suffix {gone : List V} (h : Layered writer active (gone ++ stack)) :
    Layered writer active stack := by
  obtain ⟨id, seg, settled, heq, hseg, hsettled⟩ := h
  have hdrop : stack = seg.drop gone.length ++ settled.drop (gone.length - seg.length) := by
    rw [← drop_append, ← heq, drop_left]
  exact ⟨id, _, _, hdrop, fun v hv => hseg v (mem_of_mem_drop hv),
    fun v hv => hsettled v (mem_of_mem_drop hv)⟩

theorem take (h : Layered writer active stack) (n : Nat) :
    Layered writer active (stack.take n) := by
  obtain ⟨id, seg, settled, rfl, hseg, hsettled⟩ := h
  exact ⟨id, seg.take n, settled.take (n - seg.length), take_append,
    fun v hv => hseg v (mem_of_mem_take hv), fun v hv => hsettled v (mem_of_mem_take hv)⟩

theorem not_mem_dropWriter (h : Layered writer active stack) (hid : id ∈ active) :
    ∀ v ∈ dropWriter writer id stack, writer v ≠ id := by
  obtain ⟨id', seg, settled, rfl, hseg, hsettled⟩ := h
  intro v hv heq
  have hset : v ∉ settled := fun hmem => hsettled v hmem (heq ▸ hid)
  have hmem : v ∈ seg := by
    have : v ∈ seg ++ settled := (dropWhile_sublist _).subset hv
    exact (mem_append.mp this).resolve_right hset
  have hall : ∀ u ∈ seg, decide (writer u = id) = true := fun u hu => by
    rw [decide_eq_true_eq, (hseg u hu).1, ← (hseg v hmem).1, heq]
  rw [dropWriter, dropWhile_append_of_pos hall] at hv
  exact hset ((dropWhile_sublist _).subset hv)

theorem settled_of_head (h : Layered writer active stack)
    (htop : ∀ top, stack.head? = some top → writer top ∉ active) :
    ∀ v ∈ stack, writer v ∉ active := by
  obtain ⟨id, seg, settled, rfl, hseg, hsettled⟩ := h
  cases seg with
  | nil => exact hsettled
  | cons u rest =>
    have hu := hseg u mem_cons_self
    exact absurd (hu.1 ▸ hu.2) (htop u rfl)

theorem takeWriter_append (id : Nat) (stack : List V) :
    ∃ gone, stack = gone ++ dropWriter writer id stack ∧ ∀ v ∈ gone, writer v = id :=
  ⟨_, takeWhile_append_dropWhile.symm, fun v hv => by
    simpa using mem_takeWhile_imp hv⟩

theorem drop (h : Layered writer active stack) :
    Layered writer active (dropWriter writer id stack) := by
  obtain ⟨gone, hstack, -⟩ := takeWriter_append id stack
  rw [hstack] at h
  exact h.suffix

theorem filter_eq_dropWriter (h : Layered writer active stack) (hid : id ∈ active) :
    (stack.filter fun v => writer v != id) = dropWriter writer id stack := by
  obtain ⟨gone, hstack, hgone⟩ := takeWriter_append id stack
  have hkept : ((dropWriter writer id stack).filter fun v => writer v != id) =
      dropWriter writer id stack :=
    filter_eq_self.mpr fun v hv => bne_iff_ne.mpr (h.not_mem_dropWriter hid v hv)
  have hdropped : (gone.filter fun v => writer v != id) = [] :=
    filter_eq_nil_iff.mpr fun v hv hne => bne_iff_ne.mp hne (hgone v hv)
  calc (stack.filter fun v => writer v != id)
      = ((gone ++ dropWriter writer id stack).filter fun v => writer v != id) := by rw [← hstack]
    _ = dropWriter writer id stack := by
        rw [filter_append, hdropped, hkept, nil_append]

theorem one_writer (h : Layered writer active stack) {u v : V} (hu : u ∈ stack) (hv : v ∈ stack)
    (huactive : writer u ∈ active) (hvactive : writer v ∈ active) : writer u = writer v := by
  obtain ⟨id, seg, settled, rfl, hseg, hsettled⟩ := h
  have hon : ∀ w ∈ seg ++ settled, writer w ∈ active → writer w = id := fun w hw hactive =>
    (mem_append.mp hw).elim (fun hin => (hseg w hin).1) fun hin =>
      absurd hactive (hsettled w hin)
  rw [hon u hu huactive, hon v hv hvactive]

theorem not_writer_of_head (h : Layered writer active stack) (hid : id ∈ active)
    (htop : ∀ top, stack.head? = some top → writer top ≠ id) : ∀ v ∈ stack, writer v ≠ id := by
  cases stack with
  | nil => exact fun v hv => absurd hv not_mem_nil
  | cons top rest =>
    have hkept : dropWriter writer id (top :: rest) = top :: rest :=
      dropWhile_cons_of_neg (by rw [decide_eq_true_eq]; exact htop top rfl)
    have hnot := h.not_mem_dropWriter hid
    rw [hkept] at hnot
    exact hnot

theorem outcome_dropWriter (h : Layered writer active stack) (hid : id ∈ active) :
    outcome writer aborted (dropWriter writer id stack) =
      outcome writer (id :: aborted) stack := by
  obtain ⟨gone, hstack, hgone⟩ := takeWriter_append id stack
  calc outcome writer aborted (dropWriter writer id stack)
      = outcome writer (id :: aborted) (dropWriter writer id stack) := by
        refine outcome_congr fun v hv => ?_
        have := h.not_mem_dropWriter hid v hv
        simp [this]
    _ = outcome writer (id :: aborted) (gone ++ dropWriter writer id stack) :=
        (outcome_append_of_aborted fun v hv => hgone v hv ▸ mem_cons_self).symm
    _ = outcome writer (id :: aborted) stack := by rw [← hstack]

end Layered

end Kds.Lib
