/-
  Kds.Lib.StableSort

  Sorting by a comparator whose ties keep their order of arrival, one element at a time: the element
  that arrives last goes behind its ties (`stableSort_concat`), and the first `k` of the order can
  be kept without the rest (`take_orderedInsert`).

  Heaps are known by what the standard says of them: `HeapAlgorithms` are any functions that do
  that, and `worstFirstAlgorithms` are some.
-/

import Mathlib.Data.List.Induction
import Mathlib.Data.List.Sort

namespace Kds.Lib

open Std List

variable {α : Type*} {cmp : α → α → Ordering} {x a b : α} {l : List α} {k : Nat}

-- Stable sorting

/-- Before, or a tie. -/
def NotAfter (cmp : α → α → Ordering) (a b : α) : Prop := (cmp a b).isLE = true

def Precedes (cmp : α → α → Ordering) (a b : α) : Prop := cmp a b = .lt

instance : DecidableRel (NotAfter cmp) := fun _ _ => inferInstanceAs (Decidable (_ = true))

instance : DecidableRel (Precedes cmp) := fun _ _ =>
  inferInstanceAs (Decidable (_ = Ordering.lt))

/-- Sorted by the comparator, ties as they arrived. -/
def stableSort (cmp : α → α → Ordering) (l : List α) : List α := l.insertionSort (NotAfter cmp)

@[simp] theorem length_stableSort (l : List α) : (stableSort cmp l).length = l.length :=
  length_insertionSort _ l

section

variable [TransCmp cmp]

theorem not_precedes : ¬ Precedes cmp a b ↔ NotAfter cmp b a := by
  unfold Precedes NotAfter
  have hswap : cmp a b = (cmp b a).swap := OrientedCmp.eq_swap
  rw [hswap]
  cases cmp b a <;> decide

theorem not_notAfter : ¬ NotAfter cmp a b ↔ Precedes cmp b a := by
  rw [← not_precedes, not_not]

theorem NotAfter.trans {c : α} (h : NotAfter cmp a b) (h' : NotAfter cmp b c) : NotAfter cmp a c :=
  TransCmp.isLE_trans h h'

/-- Two elements go in one after another, the first in front of its ties and the second behind. -/
theorem orderedInsert_comm (a x : α) (l : List α) :
    (l.orderedInsert (Precedes cmp) x).orderedInsert (NotAfter cmp) a =
      (l.orderedInsert (NotAfter cmp) a).orderedInsert (Precedes cmp) x := by
  induction l with
  | nil =>
    by_cases h : NotAfter cmp a x
    · have hx : ¬ Precedes cmp x a := not_precedes.mpr h
      simp [h, hx]
    · have hx : Precedes cmp x a := not_notAfter.mp h
      simp [h, hx]
  | cons b t ih =>
    by_cases hxb : Precedes cmp x b
    · by_cases hab : NotAfter cmp a b
      · by_cases hax : NotAfter cmp a x
        · have hx : ¬ Precedes cmp x a := not_precedes.mpr hax
          simp [hxb, hab, hax, hx]
        · have hx : Precedes cmp x a := not_notAfter.mp hax
          simp [hxb, hab, hax, hx]
      · have hax : ¬ NotAfter cmp a x := by
          intro hax
          apply hab
          apply hax.trans
          exact not_precedes.mp fun hbx => by
            have hswap : ¬ NotAfter cmp x b := not_notAfter.mpr hbx
            exact hswap (Ordering.isLE_of_eq_lt hxb)
        simp [hxb, hab, hax]
    · have hbx : NotAfter cmp b x := not_precedes.mp hxb
      by_cases hab : NotAfter cmp a b
      · have hxa : ¬ Precedes cmp x a := not_precedes.mpr (hab.trans hbx)
        simp [hxb, hab, hxa]
      · simp [hxb, hab, ih]

theorem stableSort_concat (l : List α) (x : α) :
    stableSort cmp (l ++ [x]) = (stableSort cmp l).orderedInsert (Precedes cmp) x := by
  unfold stableSort
  induction l with
  | nil => rfl
  | cons a l ih =>
    rw [cons_append, insertionSort_cons, ih, orderedInsert_comm, insertionSort_cons]

end

theorem pairwise_orderedInsert [TransCmp cmp] (x : α) (h : l.Pairwise (NotAfter cmp)) :
    (l.orderedInsert (Precedes cmp) x).Pairwise (NotAfter cmp) := by
  induction l with
  | nil => simp
  | cons b t ih =>
    obtain ⟨hb, ht⟩ := pairwise_cons.mp h
    by_cases hxb : Precedes cmp x b
    · rw [orderedInsert_cons, if_pos hxb, pairwise_cons]
      refine ⟨fun c hc => ?_, h⟩
      have hle : NotAfter cmp x b := Ordering.isLE_of_eq_lt hxb
      rcases mem_cons.mp hc with rfl | hc
      · exact hle
      · exact hle.trans (hb c hc)
    · rw [orderedInsert_cons, if_neg hxb, pairwise_cons]
      refine ⟨fun c hc => ?_, ih ht⟩
      rcases mem_orderedInsert _ |>.mp hc with rfl | hc
      · exact not_precedes.mp hxb
      · exact hb c hc

theorem pairwise_stableSort [TransCmp cmp] (l : List α) :
    (stableSort cmp l).Pairwise (NotAfter cmp) := by
  induction l using List.reverseRecOn with
  | nil => exact List.Pairwise.nil
  | append_singleton l x ih =>
    rw [stableSort_concat]
    exact pairwise_orderedInsert x ih

theorem take_orderedInsert (r : α → α → Prop) [DecidableRel r] (x : α) (l : List α) (k : Nat) :
    (l.orderedInsert r x).take k = ((l.take k).orderedInsert r x).take k := by
  induction l generalizing k with
  | nil => simp
  | cons b t ih =>
    cases k with
    | zero => simp
    | succ k =>
      by_cases h : r x b
      · cases k with
        | zero => simp [h]
        | succ k => simp [h, take_take]
      · simp [h, ih k]

theorem orderedInsert_eq_concat {r : α → α → Prop} [DecidableRel r]
    (h : ∀ b ∈ l, ¬ r x b) : l.orderedInsert r x = l ++ [x] := by
  induction l with
  | nil => rfl
  | cons b t ih =>
    rw [orderedInsert_cons, if_neg (h b mem_cons_self),
      ih fun c hc => h c (mem_cons_of_mem b hc)]
    rfl

theorem map_orderedInsert_of_iff {β : Type*} {r : α → α → Prop} {r' : β → β → Prop}
    [DecidableRel r] [DecidableRel r'] (f : α → β) (h : ∀ b ∈ l, r x b ↔ r' (f x) (f b)) :
    (l.orderedInsert r x).map f = (l.map f).orderedInsert r' (f x) := by
  induction l with
  | nil => rfl
  | cons b t ih =>
    have hrest := ih fun c hc => h c (mem_cons_of_mem b hc)
    have hb := h b mem_cons_self
    rw [map_cons, orderedInsert_cons, orderedInsert_cons]
    by_cases hxb : r x b
    · rw [if_pos hxb, if_pos (hb.mp hxb)]
      rfl
    · rw [if_neg hxb, if_neg fun h' => hxb (hb.mpr h'), map_cons, hrest]

theorem orderedInsert_concat {r : α → α → Prop} [DecidableRel r] (h : r x a) :
    (l ++ [a]).orderedInsert r x = l.orderedInsert r x ++ [a] := by
  induction l with
  | nil => simp [h]
  | cons b t ih =>
    by_cases hb : r x b
    · simp [hb]
    · simp [hb, ih]

-- Heaps

/-- `std::is_heap`: no element is after its parent's place allows. -/
def IsHeap (less : α → α → Bool) (l : List α) : Prop :=
  ∀ i p c, 0 < i → l[(i - 1) / 2]? = some p → l[i]? = some c → less p c = false

/-- `std::push_heap`, `std::pop_heap` and `std::sort`, by what they promise for a strict weak
    order. -/
structure HeapAlgorithms (α : Type*) where
  push : (α → α → Bool) → List α → List α
  pop : (α → α → Bool) → List α → List α
  sort : (α → α → Bool) → List α → List α
  push_spec : ∀ (cmp : α → α → Ordering) [TransCmp cmp] (l : List α) (x : α),
    IsHeap (fun a b => decide (cmp a b = .lt)) l →
      IsHeap (fun a b => decide (cmp a b = .lt))
        (push (fun a b => decide (cmp a b = .lt)) (l ++ [x])) ∧
        (push (fun a b => decide (cmp a b = .lt)) (l ++ [x])).Perm (x :: l)
  pop_spec : ∀ (cmp : α → α → Ordering) [TransCmp cmp] (m : α) (t : List α),
    IsHeap (fun a b => decide (cmp a b = .lt)) (m :: t) →
      ∃ rest, pop (fun a b => decide (cmp a b = .lt)) (m :: t) = rest ++ [m] ∧
        IsHeap (fun a b => decide (cmp a b = .lt)) rest ∧ rest.Perm t
  sort_spec : ∀ (cmp : α → α → Ordering) [TransCmp cmp] (l : List α),
    (sort (fun a b => decide (cmp a b = .lt)) l).Perm l ∧
      (sort (fun a b => decide (cmp a b = .lt)) l).Pairwise (NotAfter cmp)

/-- **The front of a heap is the worst of it.** -/
theorem IsHeap.front [TransCmp cmp] {m : α} {t : List α}
    (h : IsHeap (fun a b => decide (cmp a b = .lt)) (m :: t)) :
    ∀ c ∈ m :: t, NotAfter cmp c m := by
  intro c hc
  obtain ⟨i, hi⟩ := mem_iff_getElem?.mp hc
  induction i using Nat.strong_induction_on generalizing c with
  | _ i ih =>
    by_cases hzero : i = 0
    · subst hzero
      obtain rfl : m = c := Option.some.inj hi
      exact Ordering.isLE_of_eq_eq ReflCmp.compare_self
    · have hlt : i < (m :: t).length := (List.getElem?_eq_some_iff.mp hi).1
      have hparent : (i - 1) / 2 < i := by omega
      obtain ⟨p, hp⟩ : ∃ p, (m :: t)[(i - 1) / 2]? = some p :=
        ⟨_, List.getElem?_eq_getElem (hparent.trans hlt)⟩
      have hle := h i p c (Nat.pos_of_ne_zero hzero) hp hi
      have hcp : NotAfter cmp c p := by
        apply not_precedes.mp
        exact of_decide_eq_false hle
      exact hcp.trans (ih _ hparent _ (mem_of_getElem? hp) hp)

/-- No element is less than a later one. -/
abbrev NotLess (less : α → α → Bool) (a b : α) : Prop := less a b = false

theorem pairwise_worstFirst (cmp : α → α → Ordering) [TransCmp cmp] (l : List α) :
    (l.insertionSort (NotLess fun a b => decide (cmp a b = .lt))).Pairwise
      (NotLess fun a b => decide (cmp a b = .lt)) := by
  have hnot (a b : α) : NotLess (fun a b => decide (cmp a b = .lt)) a b ↔ NotAfter cmp b a := by
    rw [← not_precedes]
    exact decide_eq_false_iff_not
  have htotal : Std.Total (NotLess fun a b => decide (cmp a b = .lt)) := by
    refine ⟨fun a b => ?_⟩
    rw [hnot, hnot]
    by_cases h : NotAfter cmp b a
    · exact .inl h
    · exact .inr (Ordering.isLE_of_eq_lt (not_notAfter.mp h))
  have htrans : IsTrans α (NotLess fun a b => decide (cmp a b = .lt)) := by
    refine ⟨fun a b c hab hbc => ?_⟩
    rw [hnot] at hab hbc ⊢
    exact hbc.trans hab
  exact pairwise_insertionSort _ l

theorem isHeap_of_pairwise {less : α → α → Bool} (h : l.Pairwise (NotLess less)) :
    IsHeap less l := by
  intro i p c hi hp hc
  obtain ⟨hp', rfl⟩ := List.getElem?_eq_some_iff.mp hp
  obtain ⟨hc', rfl⟩ := List.getElem?_eq_some_iff.mp hc
  exact pairwise_iff_getElem.mp h _ _ hp' hc' (by omega)

/-- Heaps that are kept sorted. -/
def worstFirstAlgorithms (α : Type*) : HeapAlgorithms α where
  push less l := l.insertionSort (NotLess less)
  pop less l :=
    match l with
    | [] => []
    | m :: t => t.insertionSort (NotLess less) ++ [m]
  sort less l := l.insertionSort fun a b => NotLess less b a
  push_spec cmp _ l x _ :=
    ⟨isHeap_of_pairwise (pairwise_worstFirst cmp _),
      (perm_insertionSort _ _).trans perm_append_comm⟩
  pop_spec cmp _ m t _ :=
    ⟨_, rfl, isHeap_of_pairwise (pairwise_worstFirst cmp _), perm_insertionSort _ _⟩
  sort_spec cmp _ l := by
    have hnot : (fun a b => NotLess (fun a b => decide (cmp a b = .lt)) b a) = NotAfter cmp := by
      funext a b
      apply propext
      rw [← not_precedes]
      exact decide_eq_false_iff_not
    have htotal : Std.Total (NotAfter cmp) := by
      refine ⟨fun a b => ?_⟩
      by_cases h : NotAfter cmp a b
      · exact .inl h
      · exact .inr (Ordering.isLE_of_eq_lt (not_notAfter.mp h))
    have htrans : IsTrans α (NotAfter cmp) := ⟨fun a b c hab hbc => hab.trans hbc⟩
    refine ⟨perm_insertionSort _ l, ?_⟩
    have hsorted := pairwise_insertionSort (NotAfter cmp) l
    convert hsorted using 2

end Kds.Lib
