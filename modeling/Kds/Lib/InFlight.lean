/-
  Kds.Lib.InFlight

  Messages in flight, as a list from which any one may be delivered next.  Sends are retried
  independently of each other, so no order is promised: `deliver l i` takes the i-th out.

  All that a proof needs is that what was in flight is the message delivered and the rest, in
  some order (`deliver_perm`); membership and distinctness of keys follow.
-/

import Mathlib.Data.List.Nodup
import Mathlib.Data.List.Perm.Basic

namespace Kds.Lib

variable {μ κ : Type*} {i : Nat}

/-- The i-th message and what stays in flight. -/
def deliver (l : List μ) (i : Nat) : Option (μ × List μ) :=
  l[i]?.map fun m => (m, l.eraseIdx i)

theorem deliver_perm {l rest : List μ} {m : μ} (h : deliver l i = some (m, rest)) :
    l.Perm (m :: rest) := by
  obtain ⟨x, hx, heq⟩ := Option.map_eq_some_iff.mp h
  obtain ⟨rfl, rfl⟩ : x = m ∧ l.eraseIdx i = rest := by simpa using heq
  obtain ⟨hi, rfl⟩ := List.getElem?_eq_some_iff.mp hx
  exact (List.getElem_cons_eraseIdx_perm hi).symm

theorem deliver_map_perm {l rest : List μ} {m : μ} (h : deliver l i = some (m, rest)) (f : μ → κ)
    (others : List κ) : (l.map f ++ others).Perm (f m :: (rest.map f ++ others)) :=
  ((deliver_perm h).map f).append_right _

theorem deliver_map_perm_right {l rest : List μ} {m : μ} (h : deliver l i = some (m, rest))
    (f : μ → κ) (others : List κ) : (others ++ l.map f).Perm (f m :: (others ++ rest.map f)) :=
  (((deliver_perm h).map f).append_left _).trans List.perm_middle

theorem mem_of_deliver {l rest : List μ} {m : μ} (h : deliver l i = some (m, rest)) : m ∈ l :=
  (deliver_perm h).mem_iff.mpr (by simp)

theorem mem_of_mem_rest {l rest : List μ} {m x : μ} (h : deliver l i = some (m, rest))
    (hx : x ∈ rest) : x ∈ l :=
  (deliver_perm h).mem_iff.mpr (List.mem_cons_of_mem _ hx)

theorem eq_or_mem_rest {l rest : List μ} {m x : μ} (h : deliver l i = some (m, rest)) (hx : x ∈ l) :
    x = m ∨ x ∈ rest :=
  List.mem_cons.mp ((deliver_perm h).mem_iff.mp hx)

end Kds.Lib
