/-
  Kds.Lib.Separators

  A range of keys cut into slices by separators, as a node of a search tree cuts it: a first
  child, and a list of separators each with the child that starts at it.  A child owns the keys
  from its separator up to the next one.

  `Sliced holds lo hi first entries` says that `holds child a b` is true of every child and the
  slice `[a, b)` it owns.  The rules are the ones a tree's growth needs: where a key is routed
  (`Sliced.route`), a slice cut in two by a new separator (`Sliced.insertSep`), a node cut in
  two at one of its separators (`Sliced.append_iff`), and a last slice given away
  (`Sliced.cutLast`).
-/

import Mathlib.Data.List.Basic
import Mathlib.Data.List.TakeWhile

namespace Kds.Lib

open List

variable {α : Type*}

/-- The child of the last separator that is not above the key, or the first child. -/
def route (first : α) : List (Nat × α) → Nat → α
  | [], _ => first
  | (sep, child) :: rest, key => if sep ≤ key then route child rest key else first

/-- A new separator, in its place. -/
def insertSep (sep : Nat) (child : α) : List (Nat × α) → List (Nat × α)
  | [] => [(sep, child)]
  | entry :: rest =>
    if entry.1 < sep then entry :: insertSep sep child rest
    else (sep, child) :: entry :: rest

/-- The separators ascend strictly. -/
def Ascending (entries : List (Nat × α)) : Prop :=
  (entries.map Prod.fst).Pairwise (· < ·)

/-- Each child has what `holds` says of the slice of `[lo, hi)` it owns. -/
def Sliced (holds : α → Nat → Nat → Prop) : Nat → Nat → α → List (Nat × α) → Prop
  | lo, hi, first, [] => lo ≤ hi ∧ holds first lo hi
  | lo, hi, first, (sep, child) :: rest =>
    lo ≤ sep ∧ holds first lo sep ∧ Sliced holds sep hi child rest

/-- `bound` counts the separators that are not above the key. -/
structure UpperBound (entries : List (Nat × α)) (key bound : Nat) : Prop where
  le_length : bound ≤ entries.length
  below : ∀ i entry, entries[i]? = some entry → i < bound → entry.1 ≤ key
  above : ∀ i entry, entries[i]? = some entry → bound ≤ i → key < entry.1

-- Separators in order

theorem ascending_cons {entry : Nat × α} {rest : List (Nat × α)} :
    Ascending (entry :: rest) ↔ (∀ e ∈ rest, entry.1 < e.1) ∧ Ascending rest := by
  rw [Ascending, map_cons, pairwise_cons, Ascending]
  refine and_congr ⟨fun h e he => h e.1 (mem_map_of_mem he), fun h sep hsep => ?_⟩ Iff.rfl
  obtain ⟨e, he, rfl⟩ := mem_map.mp hsep
  exact h e he

theorem ascending_append {before after : List (Nat × α)} :
    Ascending (before ++ after) ↔
      Ascending before ∧ Ascending after ∧ ∀ e ∈ before, ∀ e' ∈ after, e.1 < e'.1 := by
  rw [Ascending, map_append, pairwise_append, Ascending, Ascending]
  refine and_congr Iff.rfl (and_congr Iff.rfl ⟨fun h e he e' he' => ?_, fun h s hs s' hs' => ?_⟩)
  · exact h _ (mem_map_of_mem he) _ (mem_map_of_mem he')
  · obtain ⟨e, he, rfl⟩ := mem_map.mp hs
    obtain ⟨e', he', rfl⟩ := mem_map.mp hs'
    exact h e he e' he'

variable {sep : Nat}

theorem mem_insertSep {child : α} {entries : List (Nat × α)} {e : Nat × α} :
    e ∈ insertSep sep child entries ↔ e = (sep, child) ∨ e ∈ entries := by
  induction entries with
  | nil => rw [insertSep, mem_singleton]; simp
  | cons entry rest ih =>
    rw [insertSep]
    by_cases hlt : entry.1 < sep
    · rw [if_pos hlt, mem_cons, ih, mem_cons]
      tauto
    · rw [if_neg hlt, mem_cons]

theorem length_insertSep (sep : Nat) (child : α) (entries : List (Nat × α)) :
    (insertSep sep child entries).length = entries.length + 1 := by
  induction entries with
  | nil => rfl
  | cons entry rest ih =>
    rw [insertSep]
    by_cases hlt : entry.1 < sep
    · rw [if_pos hlt, length_cons, ih, length_cons]
    · rw [if_neg hlt, length_cons]

theorem ascending_insertSep {sep : Nat} {child : α} {entries : List (Nat × α)}
    (h : Ascending entries) (hnew : ∀ e ∈ entries, e.1 ≠ sep) :
    Ascending (insertSep sep child entries) := by
  induction entries with
  | nil => exact pairwise_singleton _ _
  | cons entry rest ih =>
    obtain ⟨hfirst, hrest⟩ := ascending_cons.mp h
    have hne := hnew entry mem_cons_self
    rw [insertSep]
    by_cases hlt : entry.1 < sep
    · rw [if_pos hlt]
      refine ascending_cons.mpr ⟨fun e he => ?_,
        ih hrest (fun e he => hnew e (mem_cons_of_mem _ he))⟩
      rcases mem_insertSep.mp he with rfl | he
      · exact hlt
      · exact hfirst e he
    · rw [if_neg hlt]
      refine ascending_cons.mpr ⟨fun e he => ?_, h⟩
      show sep < e.1
      rcases mem_cons.mp he with rfl | he
      · omega
      · have hlater := hfirst e he
        omega

theorem insertSep_of_all_lt {child : α} {entries : List (Nat × α)}
    (h : ∀ e ∈ entries, e.1 < sep) : insertSep sep child entries = entries ++ [(sep, child)] := by
  induction entries with
  | nil => rfl
  | cons entry rest ih =>
    rw [insertSep, if_pos (h entry mem_cons_self),
      ih (fun e he => h e (mem_cons_of_mem _ he)), cons_append]

theorem insertSep_eq_takeWhile (sep : Nat) (child : α) (entries : List (Nat × α)) :
    insertSep sep child entries = entries.takeWhile (fun e => decide (e.1 < sep)) ++
      (sep, child) :: entries.dropWhile (fun e => decide (e.1 < sep)) := by
  induction entries with
  | nil => rfl
  | cons entry rest ih =>
    rw [insertSep, takeWhile_cons, dropWhile_cons]
    by_cases hlt : entry.1 < sep
    · rw [if_pos hlt, if_pos (by simpa using hlt), if_pos (by simpa using hlt), ih,
        cons_append]
    · rw [if_neg hlt, if_neg (by simpa using hlt), if_neg (by simpa using hlt), nil_append]

theorem head_dropWhile_of_mem {entries : List (Nat × α)} (h : Ascending entries)
    (hmem : ∃ e ∈ entries, e.1 = sep) :
    (entries.dropWhile (fun e => decide (e.1 < sep))).head?.map Prod.fst = some sep := by
  induction entries with
  | nil =>
    obtain ⟨e, he, -⟩ := hmem
    exact absurd he not_mem_nil
  | cons entry rest ih =>
    obtain ⟨hfirst, hrest⟩ := ascending_cons.mp h
    obtain ⟨e, he, heq⟩ := hmem
    rw [dropWhile_cons]
    rcases mem_cons.mp he with rfl | he
    · rw [if_neg (by simp [heq])]
      exact congrArg some heq
    · have hlt := hfirst e he
      rw [if_pos (by simp only [decide_eq_true_eq]; omega)]
      exact ih hrest ⟨e, he, heq⟩

-- Keys outside the separators

variable {key : Nat}

theorem route_of_all_gt {first : α} {entries : List (Nat × α)}
    (h : ∀ e ∈ entries, key < e.1) : route first entries key = first := by
  rcases entries with _ | ⟨entry, rest⟩
  · rfl
  · rw [route, if_neg (Nat.not_le.mpr (h entry mem_cons_self))]

theorem route_of_all_le {first : α} {entries : List (Nat × α)} {key' : Nat}
    (h : ∀ e ∈ entries, e.1 ≤ key) (h' : ∀ e ∈ entries, e.1 ≤ key') :
    route first entries key = route first entries key' := by
  induction entries generalizing first with
  | nil => rfl
  | cons entry rest ih =>
    rw [route, route, if_pos (h entry mem_cons_self), if_pos (h' entry mem_cons_self)]
    exact ih (fun e he => h e (mem_cons_of_mem _ he))
      (fun e he => h' e (mem_cons_of_mem _ he))

theorem route_concat {first child : α} {entries : List (Nat × α)}
    (h : ∀ e ∈ entries, e.1 ≤ key) (hsep : sep ≤ key) :
    route first (entries ++ [(sep, child)]) key = child := by
  induction entries generalizing first with
  | nil => rw [nil_append, route, if_pos hsep, route]
  | cons entry rest ih =>
    rw [cons_append, route, if_pos (h entry mem_cons_self)]
    exact ih (fun e he => h e (mem_cons_of_mem _ he))

theorem insertSep_of_all_gt {child : α} {entries : List (Nat × α)}
    (h : ∀ e ∈ entries, sep < e.1) : insertSep sep child entries = (sep, child) :: entries := by
  rcases entries with _ | ⟨entry, rest⟩
  · rfl
  · rw [insertSep, if_neg (Nat.not_lt.mpr (Nat.le_of_lt (h entry mem_cons_self)))]

-- What an upper bound finds

theorem UpperBound.tail {entry : Nat × α} {rest : List (Nat × α)} {key bound : Nat}
    (h : UpperBound (entry :: rest) key (bound + 1)) : UpperBound rest key bound where
  le_length := by
    have hle := h.le_length
    rw [length_cons] at hle
    omega
  below i e he hi := h.below (i + 1) e (by rwa [List.getElem?_cons_succ]) (by omega)
  above i e he hi := h.above (i + 1) e (by rwa [List.getElem?_cons_succ]) (by omega)

variable {bound : Nat}

theorem UpperBound.head_le {entry : Nat × α} {rest : List (Nat × α)}
    (h : UpperBound (entry :: rest) key (bound + 1)) : entry.1 ≤ key :=
  h.below 0 entry rfl (Nat.succ_pos bound)

theorem UpperBound.lt_head {entry : Nat × α} {rest : List (Nat × α)}
    (h : UpperBound (entry :: rest) key 0) : key < entry.1 :=
  h.above 0 entry rfl (Nat.le_refl 0)

theorem UpperBound.route_eq {entries : List (Nat × α)}
    (h : UpperBound entries key bound) (first : α) :
    route first entries key = if bound = 0 then first
      else (entries[bound - 1]?.map Prod.snd).getD first := by
  induction entries generalizing bound first with
  | nil =>
    have hzero : bound = 0 := Nat.le_zero.mp h.le_length
    rw [if_pos hzero, route]
  | cons entry rest ih =>
    obtain ⟨sep, child⟩ := entry
    rcases bound with _ | bound
    · rw [if_pos rfl, route, if_neg (Nat.not_le.mpr h.lt_head)]
    · rw [if_neg (Nat.succ_ne_zero bound), route, if_pos h.head_le, ih h.tail child,
        Nat.add_sub_cancel]
      rcases bound with _ | bound
      · rw [if_pos rfl]
        rfl
      · have hlt : bound < rest.length := h.tail.le_length
        rw [if_neg (Nat.succ_ne_zero bound), Nat.add_sub_cancel, List.getElem?_cons_succ,
          List.getElem?_eq_getElem hlt]
        rfl

theorem UpperBound.insertSep_eq {entries : List (Nat × α)}
    (h : UpperBound entries sep bound) (hnew : ∀ e ∈ entries, e.1 ≠ sep) (child : α) :
    insertSep sep child entries =
      entries.take bound ++ (sep, child) :: entries.drop bound := by
  induction entries generalizing bound with
  | nil => rw [insertSep, take_nil, drop_nil, nil_append]
  | cons entry rest ih =>
    have hne := hnew entry mem_cons_self
    rcases bound with _ | bound
    · have hlt := h.lt_head
      rw [insertSep, if_neg (by omega), take_zero, drop_zero, nil_append]
    · have hle := h.head_le
      rw [insertSep, if_pos (by omega),
        ih h.tail (fun e he => hnew e (mem_cons_of_mem _ he)),
        take_succ_cons, drop_succ_cons, cons_append]

theorem UpperBound.sep_mem_iff {entries : List (Nat × α)}
    (h : UpperBound entries key bound) (hsorted : Ascending entries) :
    (∃ e ∈ entries, e.1 = key) ↔
      bound ≠ 0 ∧ (entries[bound - 1]?.map Prod.fst) = some key := by
  constructor
  · rintro ⟨e, he, rfl⟩
    obtain ⟨i, hi, hget⟩ := getElem_of_mem he
    have hsome : entries[i]? = some e := by rw [List.getElem?_eq_getElem hi, hget]
    have hlt : i < bound := by
      by_contra hge
      exact absurd (h.above i e hsome (by omega)) (Nat.lt_irrefl _)
    have hbound : bound - 1 < entries.length := by have := h.le_length; omega
    have hlast : (entries[bound - 1]).1 ≤ e.1 :=
      h.below _ _ (List.getElem?_eq_getElem hbound) (by omega)
    refine ⟨by omega, ?_⟩
    rw [List.getElem?_eq_getElem hbound, Option.map_some]
    by_cases heq : i = bound - 1
    · subst heq
      rw [hget]
    · have hpair := pairwise_iff_getElem.mp hsorted i (bound - 1)
        (by rw [length_map]; exact hi) (by rw [length_map]; exact hbound) (by omega)
      rw [getElem_map, getElem_map, hget] at hpair
      omega
  · rintro ⟨hpos, hkey⟩
    obtain ⟨e, he, hfst⟩ := Option.map_eq_some_iff.mp hkey
    exact ⟨e, mem_of_getElem? he, hfst⟩

-- Slices

namespace Sliced

variable {holds holds' : α → Nat → Nat → Prop} {lo hi : Nat} {first : α}
  {entries : List (Nat × α)}

theorem le (h : Sliced holds lo hi first entries) : lo ≤ hi := by
  induction entries generalizing lo first with
  | nil => exact h.1
  | cons entry rest ih => exact Nat.le_trans h.1 (ih h.2.2)

theorem sep_mem (h : Sliced holds lo hi first entries) {e : Nat × α} (he : e ∈ entries) :
    lo ≤ e.1 ∧ e.1 ≤ hi := by
  induction entries generalizing lo first with
  | nil => exact absurd he not_mem_nil
  | cons entry rest ih =>
    obtain ⟨hle, -, hrest⟩ := h
    rcases mem_cons.mp he with rfl | he
    · exact ⟨hle, hrest.le⟩
    · exact ⟨Nat.le_trans hle (ih hrest he).1, (ih hrest he).2⟩

theorem imp (h : Sliced holds lo hi first entries)
    (himp : ∀ child a b, lo ≤ a → b ≤ hi → holds child a b → holds' child a b) :
    Sliced holds' lo hi first entries := by
  induction entries generalizing lo first with
  | nil => exact ⟨h.1, himp _ _ _ (Nat.le_refl _) (Nat.le_refl _) h.2⟩
  | cons entry rest ih =>
    obtain ⟨hle, hfirst, hrest⟩ := h
    refine ⟨hle, himp _ _ _ (Nat.le_refl _) hrest.le hfirst, ih hrest ?_⟩
    exact fun child a b ha hb => himp child a b (Nat.le_trans hle ha) hb

theorem first_slice (h : Sliced holds lo hi first entries) : ∃ b, holds first lo b := by
  rcases entries with _ | ⟨entry, rest⟩
  · exact ⟨hi, h.2⟩
  · exact ⟨entry.1, h.2.1⟩

variable {key : Nat}

theorem route (h : Sliced holds lo hi first entries) (hlo : lo ≤ key) (hhi : key < hi) :
    ∃ a b, holds (Lib.route first entries key) a b ∧ a ≤ key ∧ key < b ∧ lo ≤ a ∧ b ≤ hi := by
  induction entries generalizing lo first with
  | nil => exact ⟨lo, hi, h.2, hlo, hhi, Nat.le_refl _, Nat.le_refl _⟩
  | cons entry rest ih =>
    obtain ⟨sep, child⟩ := entry
    obtain ⟨hle, hfirst, hrest⟩ := h
    rw [Lib.route]
    by_cases hsep : sep ≤ key
    · rw [if_pos hsep]
      obtain ⟨a, b, hslice, ha, hb, hloa, hbhi⟩ := ih hrest hsep
      exact ⟨a, b, hslice, ha, hb, Nat.le_trans hle hloa, hbhi⟩
    · rw [if_neg hsep]
      exact ⟨lo, sep, hfirst, hlo, by omega, Nat.le_refl _, hrest.le⟩

variable {sep : Nat}

theorem append_iff {before after : List (Nat × α)} {child : α} :
    Sliced holds lo hi first (before ++ (sep, child) :: after) ↔
      Sliced holds lo sep first before ∧ Sliced holds sep hi child after := by
  induction before generalizing lo first with
  | nil => exact and_assoc.symm
  | cons entry rest ih =>
    rw [cons_append, Sliced, Sliced, ih]
    tauto

theorem ne_sep (h : Sliced holds lo hi first entries) (hlo : lo ≤ key) (hhi : key < hi)
    (hinside : ∀ a b, holds (Lib.route first entries key) a b → a ≤ key → key < b →
      a < sep ∧ sep < b) : ∀ e ∈ entries, e.1 ≠ sep := by
  induction entries generalizing lo first with
  | nil => exact fun e he => absurd he not_mem_nil
  | cons entry rest ih =>
    obtain ⟨s, c⟩ := entry
    obtain ⟨hle, hfirst, hrest⟩ := h
    rw [Lib.route] at hinside
    intro e he
    by_cases hs : s ≤ key
    · rw [if_pos hs] at hinside
      rcases mem_cons.mp he with rfl | he
      · obtain ⟨a, b, hslice, ha, hb, hsa, -⟩ := hrest.route hs hhi
        have hlt := (hinside a b hslice ha hb).1
        show s ≠ sep
        omega
      · exact ih hrest hs hinside e he
    · rw [if_neg hs] at hinside
      have hlt := (hinside lo s hfirst hlo (by omega)).2
      rcases mem_cons.mp he with rfl | he
      · exact Nat.ne_of_gt hlt
      · have hge := (hrest.sep_mem he).1
        omega

/-- **A slice cut in two.**  The slice a key lies in is cut by a new separator; every slice
    without the key stays as it was. -/
theorem insertSep {child : α} (h : Sliced holds lo hi first entries)
    (hlo : lo ≤ key) (hhi : key < hi)
    (hother : ∀ c a b, holds c a b → ¬(a ≤ key ∧ key < b) → holds' c a b)
    (hcut : ∀ a b, holds (Lib.route first entries key) a b → a ≤ key → key < b →
      a ≤ sep ∧ sep < b ∧ holds' (Lib.route first entries key) a sep ∧ holds' child sep b)
    (hnew : ∀ e ∈ entries, e.1 ≠ sep) :
    Sliced holds' lo hi first (Lib.insertSep sep child entries) := by
  induction entries generalizing lo first with
  | nil =>
    obtain ⟨hlesep, hlt, hold, hchild⟩ := hcut lo hi h.2 hlo hhi
    exact ⟨hlesep, hold, Nat.le_of_lt hlt, hchild⟩
  | cons entry rest ih =>
    obtain ⟨s, c⟩ := entry
    obtain ⟨hle, hfirst, hrest⟩ := h
    have hne : s ≠ sep := hnew (s, c) mem_cons_self
    rw [Lib.route] at hcut
    rw [Lib.insertSep]
    by_cases hs : s ≤ key
    · rw [if_pos hs] at hcut
      obtain ⟨a, b, hslice, ha, hb, hsa, -⟩ := hrest.route hs hhi
      have hsep := (hcut a b hslice ha hb).1
      rw [if_pos (show s < sep by omega)]
      exact ⟨hle, hother _ _ _ hfirst (by omega),
        ih hrest hs hcut (fun e he => hnew e (mem_cons_of_mem _ he))⟩
    · rw [if_neg hs] at hcut
      obtain ⟨hlesep, hlt, hold, hchild⟩ := hcut lo s hfirst hlo (by omega)
      rw [if_neg (show ¬s < sep by omega)]
      refine ⟨hlesep, hold, Nat.le_of_lt hlt, hchild, hrest.imp ?_⟩
      exact fun c a b ha _ hc => hother c a b hc (by omega)

/-- **The last slice given away.**  Where no separator is above the cut, the key's slice is
    the last: the range ends at the cut, and what is above it goes to the new child. -/
theorem cutLast {child : α} (h : Sliced holds lo hi first entries) (hlo : lo ≤ key) (hhi : key < hi)
    (hother : ∀ c a b, holds c a b → ¬(a ≤ key ∧ key < b) → holds' c a b)
    (hcut : ∀ a b, holds (Lib.route first entries key) a b → a ≤ key → key < b →
      a ≤ sep ∧ sep < b ∧ holds' (Lib.route first entries key) a sep ∧ holds' child sep b)
    (hall : ∀ e ∈ entries, e.1 ≤ sep) :
    Sliced holds' lo sep first entries ∧ holds' child sep hi ∧ sep < hi := by
  induction entries generalizing lo first with
  | nil =>
    obtain ⟨hlesep, hlt, hold, hchild⟩ := hcut lo hi h.2 hlo hhi
    exact ⟨⟨hlesep, hold⟩, hchild, hlt⟩
  | cons entry rest ih =>
    obtain ⟨s, c⟩ := entry
    obtain ⟨hle, hfirst, hrest⟩ := h
    have hsep : s ≤ sep := hall (s, c) mem_cons_self
    rw [Lib.route] at hcut
    by_cases hs : s ≤ key
    · rw [if_pos hs] at hcut
      obtain ⟨hkept, hgiven, hlt⟩ :=
        ih hrest hs hcut (fun e he => hall e (mem_cons_of_mem _ he))
      exact ⟨⟨hle, hother _ _ _ hfirst (by omega), hkept⟩, hgiven, hlt⟩
    · rw [if_neg hs] at hcut
      obtain ⟨-, hlt, -, -⟩ := hcut lo s hfirst hlo (by omega)
      omega

end Sliced

end Kds.Lib
