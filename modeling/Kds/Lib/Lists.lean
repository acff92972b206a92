/-
  Kds.Lib.Lists

  Lists that grow at their end or change in one place, parts of a list, and searches.
-/

import Mathlib.Data.List.Nodup

namespace Kds.Lib

open List

variable {α β : Type*} {l : List α} {a b : α}

-- One element more, one element changed

theorem mem_snoc : a ∈ l ++ [b] ↔ a ∈ l ∨ a = b := by
  rw [mem_append, mem_singleton]

theorem mem_modify {i : Nat} {f : α → α} {x : α}
    (hx : x ∈ l.modify i f) : x ∈ l ∨ ∃ y, l[i]? = some y ∧ x = f y := by
  obtain ⟨n, hn⟩ := mem_iff_getElem?.mp hx
  rw [getElem?_modify] at hn
  split_ifs at hn with hin
  · obtain ⟨y, hy, rfl⟩ := Option.map_eq_some_iff.mp hn
    exact .inr ⟨y, hin ▸ hy, rfl⟩
  · left
    have hn : Option.map (fun a => a) l[n]? = some x := hn
    rw [Option.map_id'] at hn
    exact mem_of_getElem? hn

-- Parts and searches

/-- A selection that is right on the whole list gives the part back. -/
theorem filter_eq_of_sublist {part whole : List α} (hsub : part.Sublist whole)
    (hnodup : whole.Nodup) (sel : α → Bool) (hsel : ∀ x ∈ whole, sel x = true ↔ x ∈ part) :
    whole.filter sel = part := by
  induction hsub with
  | slnil => rfl
  | @cons part rest a hsub ih =>
    obtain ⟨hnot, hrest⟩ := nodup_cons.mp hnodup
    have hfalse : ¬ sel a = true := fun h =>
      hnot (hsub.subset ((hsel a mem_cons_self).mp h))
    rw [filter_cons_of_neg hfalse]
    exact ih hrest fun x hx => hsel x (mem_cons_of_mem a hx)
  | @cons_cons part rest a hsub ih =>
    obtain ⟨hnot, hrest⟩ := nodup_cons.mp hnodup
    have htrue : sel a = true := (hsel a mem_cons_self).mpr mem_cons_self
    rw [filter_cons_of_pos htrue]
    refine congrArg (a :: ·) (ih hrest fun x hx => ?_)
    have hne : x ≠ a := fun heq => hnot (heq ▸ hx)
    rw [hsel x (mem_cons_of_mem a hx), mem_cons, or_iff_right hne]

theorem find?_of_findSome? {f : α → Option β} {b : β} (h : l.findSome? f = some b) :
    ∃ a ∈ l, l.find? (fun a => (f a).isSome) = some a := by
  induction l with
  | nil => cases h
  | cons a rest ih =>
    cases ha : f a with
    | some b' => exact ⟨a, mem_cons_self, find?_cons_of_pos (by rw [ha]; rfl)⟩
    | none =>
      rw [findSome?_cons, ha] at h
      obtain ⟨a', hmem, hfind⟩ := ih h
      refine ⟨a', mem_cons_of_mem a hmem, ?_⟩
      rw [find?_cons_of_neg (by simp [ha])]
      exact hfind

theorem find?_of_findSome?_none {f : α → Option β} (h : l.findSome? f = none) :
    l.find? (fun a => (f a).isSome) = none := by
  rw [find?_eq_none]
  intro a ha
  rw [findSome?_eq_none_iff.mp h a ha]
  exact Bool.false_ne_true

end Kds.Lib
