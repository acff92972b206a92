/-
  Kds.Exec.CabinDirectory

  A directory as a function of the key.  Every operation that succeeds rewrites one header, found
  under its key, by adding to its counters and moving its entry list; `shift` says that once, and
  `apply_eq_shift`, `applyDeparture_eq_shift` and `unreserve_eq_shift` say when the source's
  operations are it.  `Mirrors` relates a live directory to the one the log folds to: the same
  headers, save that a group no record ever named is missing there.
-/

import Kds.Exec.CabinCalls
import Mathlib.Data.List.Nodup

namespace Kds.Exec

open List

/-- Count and sum, and what one entry weighs in them. -/
def PlannedEntry.weight (p : PlannedEntry) : Int × Int :=
  if p.departure then (-1, -p.value) else (1, p.value)

namespace BoundCabin

variable {c c' : BoundCabin} {key k : List UInt8} {h : GroupHeader} {dCount dSum : Int}
  {g : List EntryAt → List EntryAt}

-- Headers by key

theorem mem_of_find (hf : c.find key = some h) : h ∈ c.groups ∧ h.key = key :=
  ⟨mem_of_find?_eq_some hf, by simpa using List.find?_some hf⟩

theorem find_of_mem (hkeys : (c.groups.map (·.key)).Nodup) (hm : h ∈ c.groups) :
    c.find h.key = some h := by
  cases hf : c.find h.key with
  | none =>
    have := List.find?_eq_none.mp hf h hm
    simp at this
  | some h' =>
    obtain ⟨hm', hk'⟩ := mem_of_find hf
    exact congrArg some (inj_on_of_nodup_map hkeys hm' hm hk')

theorem find_isSome_of_key_mem (hm : key ∈ c.groups.map (·.key)) : (c.find key).isSome := by
  obtain ⟨h, hmem, rfl⟩ := mem_map.mp hm
  rw [find, List.find?_isSome]
  exact ⟨h, hmem, by simp⟩

theorem headerAt_of_find (hf : c.find key = some h) : c.headerAt key = (h.count, h.sum) := by
  simp [headerAt, countOf, sumOf, hf]

theorem headerAt_of_find_none (hf : c.find key = none) : c.headerAt key = (0, 0) := by
  simp [headerAt, countOf, sumOf, hf]

theorem entriesOf_of_find (hf : c.find key = some h) : c.entriesOf key = h.entries := by
  simp [entriesOf, hf]

theorem map_modifyGroup {β : Type} (proj : GroupHeader → β) {f : GroupHeader → GroupHeader}
    (hf : ∀ h, proj (f h) = proj h) (key : List UInt8) (groups : List GroupHeader) :
    (modifyGroup key f groups).map proj = groups.map proj := by
  induction groups with
  | nil => rfl
  | cons h rest ih =>
    unfold modifyGroup
    split
    · rw [map_cons, map_cons, hf]
    · rw [map_cons, map_cons, ih]

theorem modify_congr {f f' : GroupHeader → GroupHeader} (hf : c.find key = some h)
    (heq : f h = f' h) : c.modify key f = c.modify key f' := by
  unfold modify
  unfold find at hf
  congr 1
  generalize c.groups = groups at hf ⊢
  induction groups with
  | nil => rfl
  | cons h₁ rest ih =>
    by_cases hk : h₁.key = key
    · rw [List.find?_cons_of_pos (by simpa using hk)] at hf
      cases hf
      rw [modifyGroup, modifyGroup, if_pos hk, if_pos hk, heq]
    · rw [List.find?_cons_of_neg (by simpa using hk)] at hf
      rw [modifyGroup, modifyGroup, if_neg hk, if_neg hk, ih hf]

-- One header rewritten

/-- Add to one group's counters and move its entry list. -/
def shift (c : BoundCabin) (key : List UInt8) (dCount dSum : Int)
    (g : List EntryAt → List EntryAt) : BoundCabin :=
  c.modify key fun h =>
    { h with count := h.count + dCount, sum := h.sum + dSum, entries := g h.entries }

theorem map_shift {β : Type} (proj : GroupHeader → β)
    (hproj : ∀ h n m es, proj { h with count := n, sum := m, entries := es } = proj h) :
    (c.shift key dCount dSum g).groups.map proj = c.groups.map proj := by
  unfold shift modify
  exact map_modifyGroup proj (fun h => hproj h _ _ _) key c.groups

theorem find_shift (c : BoundCabin) (key k : List UInt8) :
    (c.shift key dCount dSum g).find k = if k = key then (c.find k).map fun h =>
      { h with count := h.count + dCount, sum := h.sum + dSum, entries := g h.entries }
      else c.find k :=
  find_modify c key k fun _ => rfl

theorem headerAt_shift (hf : c.find key = some h) (k : List UInt8) :
    (c.shift key dCount dSum g).headerAt k =
      c.headerAt k + if k = key then (dCount, dSum) else 0 := by
  by_cases hk : k = key
  · subst hk
    simp [headerAt, countOf, sumOf, find_shift, hf]
  · simp [headerAt, countOf, sumOf, find_shift, hk]

theorem entriesOf_shift (hf : c.find key = some h) (k : List UInt8) :
    (c.shift key dCount dSum g).entriesOf k =
      if k = key then g (c.entriesOf k) else c.entriesOf k := by
  by_cases hk : k = key
  · subst hk
    simp [entriesOf, find_shift, hf]
  · simp [entriesOf, find_shift, hk]

theorem ensureGroup_of_find (hf : c.find key = some h) : c.ensureGroup key = c := by
  simp [ensureGroup, hf]

theorem headerAt_ensureGroup (c : BoundCabin) (key k : List UInt8) :
    (c.ensureGroup key).headerAt k = c.headerAt k := by
  simp [headerAt, (c.moved_ensureGroup key).count k, (c.moved_ensureGroup key).sum k]

theorem apply_eq_shift (hf : c.find key = some h) {delta : Int} (loc : EntryAt)
    (hcount : InInt64 (h.count + 1)) (hsum : InInt64 (h.sum + delta)) :
    c.apply key delta loc = .ok (c.shift key 1 delta (· ++ [loc])) := by
  have hc : checkedAdd h.count 1 = some (h.count + 1) := checkedAdd_eq_some.mpr ⟨hcount, rfl⟩
  have hs : checkedAdd h.sum delta = some (h.sum + delta) := checkedAdd_eq_some.mpr ⟨hsum, rfl⟩
  simp only [apply, ensureGroup_of_find hf, hf, hc, hs]
  exact congrArg _ (modify_congr hf rfl)

theorem applyDeparture_eq_shift (hf : c.find key = some h) {delta : Int} (loc : EntryAt)
    (hcount : InInt64 (h.count + -1)) (hsum : InInt64 (h.sum + -delta)) :
    c.applyDeparture key delta loc = .ok (c.shift key (-1) (-delta) (· ++ [loc])) := by
  have hc : checkedAdd h.count (-1) = some (h.count + -1) := checkedAdd_eq_some.mpr ⟨hcount, rfl⟩
  have hs : checkedAdd h.sum (-delta) = some (h.sum + -delta) :=
    checkedAdd_eq_some.mpr ⟨hsum, rfl⟩
  simp only [applyDeparture, hf, hc, hs]
  exact congrArg _ (modify_congr hf rfl)

theorem forget_eq_shift (hf : c.find key = some h) {loc : EntryAt} (e₁ e₂ e₃ : String)
    (hloc : loc ∈ h.entries) (hcount : InInt64 (h.count + dCount))
    (hsum : InInt64 (h.sum + dSum)) :
    c.forget key dCount dSum loc e₁ e₂ e₃ = .ok (c.shift key dCount dSum (·.erase loc)) := by
  have hc : checkedAdd h.count dCount = some (h.count + dCount) :=
    checkedAdd_eq_some.mpr ⟨hcount, rfl⟩
  have hs : checkedAdd h.sum dSum = some (h.sum + dSum) := checkedAdd_eq_some.mpr ⟨hsum, rfl⟩
  simp only [forget, hf, if_pos hloc, hc, hs]
  exact congrArg _ (modify_congr hf rfl)

-- Group ids

/-- Group ids are dense from 1 in the order of birth and no key has two groups. -/
structure Numbered (c : BoundCabin) : Prop where
  keys : (c.groups.map (·.key)).Nodup
  ids : c.groups.map (·.groupId) = List.range' 1 c.groups.length
  fits : c.groups.length < 2 ^ 32
  next : c.nextGroupId = (c.groups.length + 1) % 2 ^ 32

theorem numbered_empty : Numbered {} := ⟨nodup_nil, rfl, by decide, by decide⟩

theorem Numbered.shift (hn : c.Numbered) : (c.shift key dCount dSum g).Numbered := by
  have hkeys : (c.shift key dCount dSum g).groups.map (·.key) = c.groups.map (·.key) :=
    map_shift _ fun _ _ _ _ => rfl
  have hids : (c.shift key dCount dSum g).groups.map (·.groupId) = c.groups.map (·.groupId) :=
    map_shift _ fun _ _ _ _ => rfl
  have hlen : (c.shift key dCount dSum g).groups.length = c.groups.length := by
    simpa using congrArg List.length hkeys
  exact ⟨hkeys ▸ hn.keys, by rw [hids, hlen, hn.ids], hlen ▸ hn.fits, by rw [hlen]; exact hn.next⟩

/-- A new group may be born: there is a 32-bit id left for it. -/
def Room (c : BoundCabin) (key : List UInt8) : Prop :=
  (c.find key).isSome ∨ c.groups.length < 2 ^ 32 - 1

theorem Room.shift (hr : c.Room k) : (c.shift key dCount dSum g).Room k := by
  rcases hr with hfound | hlt
  · refine .inl ?_
    rw [find_shift]
    split
    · rwa [Option.isSome_map]
    · exact hfound
  · refine .inr ?_
    have hlen : (c.shift key dCount dSum g).groups.length = c.groups.length := by
      simpa using congrArg List.length (@map_shift c key dCount dSum g _ GroupHeader.key fun _ _ _
        _ => rfl)
    rwa [hlen]

theorem Numbered.ensureGroup (hn : c.Numbered) (hroom : c.Room key) :
    (c.ensureGroup key).Numbered := by
  cases hf : c.find key with
  | some h =>
    rw [ensureGroup_of_find hf]
    exact hn
  | none =>
    have hlt : c.groups.length < 2 ^ 32 - 1 := by simpa [Room, hf] using hroom
    have hnew : key ∉ c.groups.map (·.key) := fun hm => by
      have := find_isSome_of_key_mem hm
      simp [hf] at this
    have hnext : c.nextGroupId = c.groups.length + 1 := by
      rw [hn.next, Nat.mod_eq_of_lt (by omega)]
    simp only [BoundCabin.ensureGroup, hf]
    refine ⟨?_, ?_, ?_, ?_⟩
    · rw [map_append, nodup_append]
      refine ⟨hn.keys, by simp, ?_⟩
      intro a ha b hb heq
      simp only [map_cons, map_nil, mem_singleton] at hb
      exact hnew (hb ▸ heq ▸ ha)
    · rw [map_append, hn.ids, length_append, length_singleton,
        range'_concat]
      simp [hnext, Nat.add_comm]
    · rw [length_append, length_singleton]
      omega
    · show (c.nextGroupId + 1) % 2 ^ 32 = _
      rw [hnext, length_append, length_singleton]

theorem Numbered.id_pos (hn : c.Numbered) (hm : h ∈ c.groups) : h.groupId ≠ 0 := by
  have hmem : h.groupId ∈ c.groups.map (·.groupId) := mem_map_of_mem hm
  rw [hn.ids, mem_range'_1] at hmem
  omega

theorem Numbered.eq_of_id {h h' : GroupHeader} (hn : c.Numbered) (hm : h ∈ c.groups)
    (hm' : h' ∈ c.groups) (heq : h.groupId = h'.groupId) : h = h' := by
  have hids : (c.groups.map (·.groupId)).Nodup := by
    rw [hn.ids]
    exact nodup_range'
  exact inj_on_of_nodup_map hids hm hm' heq

-- The directory the log folds to

/-- A group no entry has joined. -/
def Blank (h : GroupHeader) : Prop := h.count = 0 ∧ h.sum = 0 ∧ h.entries = []

/-- `c'` has `c`'s headers, save blank ones it has not heard of. -/
structure Mirrors (c c' : BoundCabin) : Prop where
  keys : (c'.groups.map (·.key)).Nodup
  headers : ∀ key, c'.find key = c.find key ∨
    c'.find key = none ∧ ∀ h, c.find key = some h → Blank h

theorem mirrors_empty : Mirrors {} {} := ⟨nodup_nil, fun _ => .inl rfl⟩

theorem Mirrors.headerAt (hm : Mirrors c c') (key : List UInt8) :
    c'.headerAt key = c.headerAt key := by
  rcases hm.headers key with heq | ⟨hnone, hblank⟩
  · simp [BoundCabin.headerAt, countOf, sumOf, heq]
  · rw [headerAt_of_find_none hnone]
    cases hf : c.find key with
    | none => rw [headerAt_of_find_none hf]
    | some h =>
      obtain ⟨hcount, hsum, -⟩ := hblank h hf
      rw [headerAt_of_find hf, hcount, hsum]

theorem Mirrors.ensureGroup (hm : Mirrors c c') (key : List UInt8) :
    Mirrors (c.ensureGroup key) c' := by
  refine ⟨hm.keys, fun k => ?_⟩
  by_cases hk : k = key
  · subst hk
    rw [find_ensureGroup_self]
    rcases hm.headers k with heq | ⟨hnone, hblank⟩
    · cases hf : c.find k with
      | some h => exact .inl (by rw [heq, hf]; rfl)
      | none =>
        refine .inr ⟨heq.trans hf, fun h hh => ?_⟩
        cases hh
        exact ⟨rfl, rfl, rfl⟩
    · refine .inr ⟨hnone, fun h hh => ?_⟩
      cases hf : c.find k with
      | some h₁ =>
        rw [hf] at hh
        cases hh
        exact hblank h₁ hf
      | none =>
        rw [hf] at hh
        cases hh
        exact ⟨rfl, rfl, rfl⟩
  · rw [find_ensureGroup_ne c hk]
    exact hm.headers k

theorem Mirrors.shift (hm : Mirrors c c') (hf : c'.find key = c.find key) :
    Mirrors (c.shift key dCount dSum g) (c'.shift key dCount dSum g) := by
  constructor
  · have hkeys : (c'.shift key dCount dSum g).groups.map (·.key) = c'.groups.map (·.key) :=
      map_shift _ fun _ _ _ _ => rfl
    rw [hkeys]
    exact hm.keys
  · intro k
    rw [find_shift, find_shift]
    by_cases hk : k = key
    · subst hk
      rw [if_pos rfl, if_pos rfl, hf]
      exact .inl rfl
    · rw [if_neg hk, if_neg hk]
      exact hm.headers k

/-- **A record's id binds its group.**  Folding the record of an entry first brings its group into
    being under the id the live directory gave it. -/
theorem Mirrors.adoptGroupId (hm : Mirrors c c') (hn : c.Numbered) (hf : c.find key = some h) :
    ∃ c'', c'.adoptGroupId key h.groupId = .ok c'' ∧ Mirrors c c'' ∧ c''.find key = some h := by
  have hmem := mem_of_find hf
  have hpos := hn.id_pos hmem.1
  rcases hm.headers key with heq | ⟨hnone, hblank⟩
  · exact ⟨c', by simp [BoundCabin.adoptGroupId, hpos, heq, hf], hm, heq.trans hf⟩
  · have hid : c'.findById h.groupId = none := by
      rw [findById, List.find?_eq_none]
      intro h₁ hm₁ heq
      have hfound := find_of_mem hm.keys hm₁
      rcases hm.headers h₁.key with hsame | ⟨habsent, -⟩
      · have hlive := mem_of_find (hsame ▸ hfound)
        have : h₁ = h := hn.eq_of_id hlive.1 hmem.1 (by simpa using heq)
        rw [this, hmem.2, hnone] at hfound
        cases hfound
      · rw [habsent] at hfound
        cases hfound
    have hnew : key ∉ c'.groups.map (·.key) := fun hk => by
      have := find_isSome_of_key_mem hk
      simp [hnone] at this
    have hheader : ({ key := key, groupId := h.groupId, count := 0, sum := 0 } : GroupHeader) =
      h := by
      obtain ⟨hcount, hsum, hentries⟩ := hblank h hf
      cases h
      simp only at hcount hsum hentries hmem
      simp [hcount, hsum, hentries, hmem.2]
    have hfind : ∀ k n, BoundCabin.find { groups := c'.groups ++ [h], nextGroupId := n } k =
        if k = key then some h else c'.find k := by
      intro k n
      by_cases hk : k = key
      · have : c'.groups.find? (fun h => decide (h.key = key)) = none := hnone
        simp [find, List.find?_append, hk, this, hmem.2]
      · have hne : h.key ≠ k := fun heq => hk (heq.symm.trans hmem.2)
        simp [find, List.find?_append, hne, hk]
    refine ⟨{ groups := c'.groups ++ [h]
              nextGroupId := if c'.nextGroupId ≤ h.groupId then (h.groupId + 1) % 2 ^ 32
                else c'.nextGroupId }, ?_, ⟨?_, ?_⟩, ?_⟩
    · simp [BoundCabin.adoptGroupId, restoreGroup, hpos, hnone, hid, hheader]
    · rw [map_append, nodup_append]
      refine ⟨hm.keys, by simp, ?_⟩
      intro a ha b hb heq
      simp only [map_cons, map_nil, mem_singleton] at hb
      exact hnew (hmem.2 ▸ hb ▸ heq ▸ ha)
    · intro k
      rw [hfind]
      by_cases hk : k = key
      · rw [if_pos hk, hk, hf]
        exact .inl rfl
      · rw [if_neg hk]
        exact hm.headers k
    · rw [hfind, if_pos rfl]

end BoundCabin

end Kds.Exec
