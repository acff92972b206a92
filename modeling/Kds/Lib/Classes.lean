/-
  Kds.Lib.Classes

  Equivalence classes kept as lists.  `joinClasses` puts two elements in one class: each is given
  a class where it has none, and the later class is emptied into the earlier.  An element is of one
  class at most, and where the elements joined are related, by a relation that is symmetric and
  transitive, so are any two of a class.
-/

import Kds.Lib.Lists
import Mathlib.Data.List.Nodup
import Mathlib.Data.List.Flatten

namespace Kds.Lib

open List

variable {α : Type*} [DecidableEq α]

/-- The class of an element, the number of classes where it has none. -/
def findClass (classes : List (List α)) (x : α) : Nat := classes.findIdx fun c => decide (x ∈ c)

/-- A class of its own, for an element without one. -/
def ensureClass (classes : List (List α)) (x : α) : List (List α) :=
  if findClass classes x = classes.length then classes ++ [[x]] else classes

/-- The class at `hi` emptied into the one at `lo`. -/
def mergeClasses (classes : List (List α)) (lo hi : Nat) : List (List α) :=
  classes.mapIdx fun i c => if i = lo then c ++ classes.getD hi [] else if i = hi then [] else c

/-- The two elements' classes made one. -/
def joinClasses (classes : List (List α)) (x y : α) : List (List α) :=
  let a := findClass classes x
  let withX := ensureClass classes x
  let b := findClass withX y
  let withBoth := ensureClass withX y
  if a = b then withBoth else mergeClasses withBoth (min a b) (max a b)

-- What holds of classes

/-- No element is in a class twice, or in two; and any two of a class are related. -/
structure Classed (R : α → α → Prop) (classes : List (List α)) : Prop where
  related : ∀ c ∈ classes, ∀ x ∈ c, ∀ y ∈ c, R x y
  once : ∀ c ∈ classes, c.Nodup
  apart : ∀ (i j : Nat) (c d : List α) (x : α), classes[i]? = some c → classes[j]? = some d →
    x ∈ c → x ∈ d → i = j

section

variable {R : α → α → Prop} {classes : List (List α)} {x y : α} {i : Nat}

omit [DecidableEq α] in
theorem classed_nil : Classed R ([] : List (List α)) :=
  ⟨fun _ hc => absurd hc not_mem_nil, fun _ hc => absurd hc not_mem_nil,
    fun i _ _ _ _ hi => by simp at hi⟩

omit [DecidableEq α] in
theorem Classed.nodup_flatten (h : Classed R classes) : classes.flatten.Nodup := by
  rw [List.nodup_flatten]
  refine ⟨h.once, ?_⟩
  rw [List.pairwise_iff_getElem]
  intro i j hi hj hlt x hx hy
  have hij := h.apart i j _ _ x (List.getElem?_eq_getElem hi) (List.getElem?_eq_getElem hj) hx hy
  omega

theorem mem_of_findClass (h : findClass classes x ≠ classes.length) :
    ∃ c, classes[findClass classes x]? = some c ∧ x ∈ c := by
  have hlt : findClass classes x < classes.length :=
    Nat.lt_of_le_of_ne findIdx_le_length h
  refine ⟨_, List.getElem?_eq_getElem hlt, ?_⟩
  have hfound : decide (x ∈ classes[findClass classes x]) = true :=
    findIdx_getElem (w := hlt)
  exact of_decide_eq_true hfound

theorem not_mem_of_findClass (h : findClass classes x = classes.length) : ∀ c ∈ classes, x ∉ c := by
  intro c hc hx
  have hlt : findClass classes x < classes.length :=
    findIdx_lt_length_of_exists ⟨c, hc, decide_eq_true hx⟩
  omega

theorem mem_ensureClass (classes : List (List α)) (x : α) :
    ∃ c, (ensureClass classes x)[findClass classes x]? = some c ∧ x ∈ c := by
  rw [ensureClass]
  split_ifs with h
  · refine ⟨[x], ?_, mem_singleton.mpr rfl⟩
    rw [h, List.getElem?_concat_length]
  · exact mem_of_findClass h

theorem getElem?_ensureClass {c : List α} (x : α) (h : classes[i]? = some c) :
    (ensureClass classes x)[i]? = some c := by
  have hlt : i < classes.length := (List.getElem?_eq_some_iff.mp h).1
  rw [ensureClass]
  split_ifs
  · rw [List.getElem?_append_left hlt, h]
  · exact h

theorem Classed.ensureClass (h : Classed R classes) (hx : R x x) :
    Classed R (ensureClass classes x) := by
  rw [Lib.ensureClass]
  split_ifs with hnone
  · have hout := not_mem_of_findClass hnone
    refine ⟨?_, ?_, ?_⟩
    · intro c hc u hu v hv
      rcases Lib.mem_snoc.mp hc with hold | rfl
      · exact h.related c hold u hu v hv
      · rw [mem_singleton.mp hu, mem_singleton.mp hv]
        exact hx
    · intro c hc
      rcases Lib.mem_snoc.mp hc with hold | rfl
      · exact h.once c hold
      · exact nodup_singleton x
    · intro i j c d u hi hj hu hv
      have hlast : ∀ {k : Nat} {e : List α}, (classes ++ [[x]])[k]? = some e → u ∈ e →
          classes[k]? = some e ∨ k = classes.length ∧ u = x := by
        intro k e hk he
        rcases Nat.lt_trichotomy k classes.length with hlt | rfl | hgt
        · rw [List.getElem?_append_left hlt] at hk
          exact Or.inl hk
        · rw [List.getElem?_concat_length] at hk
          cases hk
          exact Or.inr ⟨rfl, mem_singleton.mp he⟩
        · rw [List.getElem?_eq_none (by rw [length_append, length_singleton]; omega)]
            at hk
          cases hk
      rcases hlast hi hu with hi' | ⟨rfl, rfl⟩
      · rcases hlast hj hv with hj' | ⟨rfl, rfl⟩
        · exact h.apart i j c d u hi' hj' hu hv
        · exact absurd hu (hout c (mem_of_getElem? hi'))
      · rcases hlast hj hv with hj' | ⟨rfl, -⟩
        · exact absurd hv (hout d (mem_of_getElem? hj'))
        · rfl
  · exact h

omit [DecidableEq α] in
theorem getElem?_mergeClasses {lo hi : Nat} {c : List α}
    (h : (mergeClasses classes lo hi)[i]? = some c) : ∃ d, classes[i]? = some d ∧
      c = if i = lo then d ++ classes.getD hi [] else if i = hi then [] else d := by
  rw [mergeClasses, List.getElem?_mapIdx] at h
  obtain ⟨d, hd, rfl⟩ := Option.map_eq_some_iff.mp h
  exact ⟨d, hd, rfl⟩

omit [DecidableEq α] in
theorem Classed.mergeClasses (h : Classed R classes) (hsymm : ∀ u v, R u v → R v u)
    {lo hi : Nat} {c d : List α} (hne : lo ≠ hi)
    (hlo : classes[lo]? = some c) (hhi : classes[hi]? = some d)
    (hcd : ∀ u ∈ c, ∀ v ∈ d, R u v) : Classed R (mergeClasses classes lo hi) := by
  have hget : classes.getD hi [] = d := by
    rw [getD_eq_getElem?_getD, hhi, Option.getD_some]
  -- an element of a class after the merge, and its class before
  have hfrom : ∀ {k : Nat} {e : List α} {u : α}, (Lib.mergeClasses classes lo hi)[k]? = some e →
      u ∈ e → ∃ k' e', classes[k']? = some e' ∧ u ∈ e' ∧ k = if k' = hi then lo else k' := by
    intro k e u hk hu
    obtain ⟨e', he', rfl⟩ := getElem?_mergeClasses hk
    by_cases hklo : k = lo
    · subst hklo
      rw [if_pos rfl, hget] at hu
      rcases mem_append.mp hu with hu | hu
      · exact ⟨k, e', he', hu, (if_neg hne).symm⟩
      · exact ⟨hi, d, hhi, hu, (if_pos rfl).symm⟩
    · rw [if_neg hklo] at hu
      by_cases hkhi : k = hi
      · rw [if_pos hkhi] at hu
        exact absurd hu not_mem_nil
      · rw [if_neg hkhi] at hu
        exact ⟨k, e', he', hu, (if_neg hkhi).symm⟩
  refine ⟨?_, ?_, ?_⟩
  · intro e he u hu v hv
    obtain ⟨k, hk⟩ := List.getElem?_of_mem he
    obtain ⟨ku, eu, heu, huin, hku⟩ := hfrom hk hu
    obtain ⟨kv, ev, hev, hvin, hkv⟩ := hfrom hk hv
    by_cases hsame : ku = kv
    · subst hsame
      cases heu.symm.trans hev
      exact h.related eu (mem_of_getElem? heu) u huin v hvin
    · -- one is of the class that went, the other of the class it went into
      by_cases huhi : ku = hi
      · have hvlo : kv = lo := by
          rw [hku, if_pos huhi] at hkv
          split_ifs at hkv with hkvhi
          · exact absurd (huhi.trans hkvhi.symm) hsame
          · exact hkv.symm
        subst huhi hvlo
        cases heu.symm.trans hhi
        cases hev.symm.trans hlo
        exact hsymm v u (hcd v hvin u huin)
      · rw [if_neg huhi] at hku
        have hvhi : kv = hi := by
          by_contra hkvhi
          rw [if_neg hkvhi] at hkv
          exact hsame (hku.symm.trans hkv)
        have hulo : ku = lo := by
          rw [if_pos hvhi] at hkv
          exact hku.symm.trans hkv
        subst hvhi hulo
        cases heu.symm.trans hlo
        cases hev.symm.trans hhi
        exact hcd u huin v hvin
  · intro e he
    obtain ⟨k, hk⟩ := List.getElem?_of_mem he
    obtain ⟨e', he', rfl⟩ := getElem?_mergeClasses hk
    split_ifs with hklo hkhi
    · subst hklo
      cases he'.symm.trans hlo
      rw [hget, nodup_append]
      refine ⟨h.once _ (mem_of_getElem? hlo), h.once _ (mem_of_getElem? hhi), ?_⟩
      rintro u hu v hv rfl
      exact hne (h.apart k hi _ _ u hlo hhi hu hv)
    · exact nodup_nil
    · exact h.once e' (mem_of_getElem? he')
  · intro i j e f u hi' hj' hu hv
    obtain ⟨ki, ei, hei, huin, rfl⟩ := hfrom hi' hu
    obtain ⟨kj, ej, hej, hvin, rfl⟩ := hfrom hj' hv
    rw [h.apart ki kj ei ej u hei hej huin hvin]

/-- **Joining two related elements keeps the classes so.** -/
theorem Classed.joinClasses (h : Classed R classes) (htrans : ∀ u v w, R u v → R v w → R u w)
    (hsymm : ∀ u v, R u v → R v u) (hxy : R x y) : Classed R (joinClasses classes x y) := by
  have hyx := hsymm x y hxy
  have hboth := (h.ensureClass (htrans x y x hxy hyx)).ensureClass (htrans y x y hyx hxy)
  obtain ⟨c, hc, hxc⟩ := mem_ensureClass classes x
  have hc' := getElem?_ensureClass y hc
  obtain ⟨d, hd, hyd⟩ := mem_ensureClass (Lib.ensureClass classes x) y
  rw [Lib.joinClasses]
  split_ifs with hab
  · exact hboth
  · have hcd : ∀ u ∈ c, ∀ v ∈ d, R u v := by
      intro u hu v hv
      have hux := hboth.related c (mem_of_getElem? hc') u hu x hxc
      have hyv := hboth.related d (mem_of_getElem? hd) y hyd v hv
      exact htrans u x v hux (htrans x y v hxy hyv)
    rcases Nat.lt_or_ge (findClass classes x) (findClass (Lib.ensureClass classes x) y) with
      hlt | hge
    · rw [Nat.min_eq_left (Nat.le_of_lt hlt), Nat.max_eq_right (Nat.le_of_lt hlt)]
      exact hboth.mergeClasses hsymm hab hc' hd hcd
    · rw [Nat.min_eq_right hge, Nat.max_eq_left hge]
      exact hboth.mergeClasses hsymm (Ne.symm hab) hd hc'
        fun v hv u hu => hsymm u v (hcd u hu v hv)

end

end Kds.Lib
