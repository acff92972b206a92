/-
  Kds.Exec.BoundCabin

  The group directory of one assertion (`src/exec/bound_cabin.cpp`): per group key the
  running count and sum over committed and reserved rows, and the places of the entries
  behind them.  `Admit` compares, `Apply` / `Unapply` add and remove an arrival entry,
  `ApplyDeparture` / `UnapplyDeparture` a departure entry.

  The directory is a hash map from a key's hash to the headers that hash there, each
  lookup confirmed against the stored key.  Since a header is only ever filed under the
  hash of its own key, that is a lookup by key, and the map is a list of headers here.
-/

import Kds.Base.Status
import Kds.Parser.Value
import Mathlib.Algebra.BigOperators.Group.List.Basic

namespace Kds

namespace Exec

-- Group keys

def appendU64 (v : Int) : List UInt8 :=
  (List.range 8).map fun i => UInt8.ofNat ((v % 2 ^ 64).toNat / 2 ^ (8 * i) % 256)

/-- One value's part of a group key: a tag, then the contents; strings are length-prefixed. -/
def encodeGroupKeyPart (v : AstValue) : List UInt8 :=
  match v.type with
  | .null => [0]
  | .int => 1 :: appendU64 v.intVal
  | .decimal => 2 :: v.scale :: appendU64 v.intVal
  | .decimalWide => 3 :: v.scale :: (appendU64 v.decHi ++ appendU64 v.intVal)
  | .str | .param => 4 :: (appendU64 v.strVal.length ++ v.strVal)

/-- `EncodeGroupKey`: the canonical encoding of one group key. -/
def encodeGroupKey (values : List AstValue) : List UInt8 :=
  values.flatMap encodeGroupKeyPart

/-- `SumContribution`: what one row's SUM column adds to its group. -/
def sumContribution (value : AstValue) : Int :=
  if value.type = .null then 0 else value.intVal

-- Checked 64-bit arithmetic

/-- The value range of a C++ `int64_t`. -/
def InInt64 (v : Int) : Prop := -2 ^ 63 ≤ v ∧ v < 2 ^ 63

instance (v : Int) : Decidable (InInt64 v) := by unfold InInt64; infer_instance

/-- `__builtin_add_overflow`, `none` on overflow; a subtraction adds the negated operand. -/
def checkedAdd (a b : Int) : Option Int :=
  if InInt64 (a + b) then some (a + b) else none

theorem checkedAdd_eq_some {a b c : Int} : checkedAdd a b = some c ↔ InInt64 (a + b) ∧
    c = a + b := by
  unfold checkedAdd
  split <;> simp_all [eq_comm]

-- The directory

inductive BoundAggregate where
  | count | sum
  deriving DecidableEq

/-- Where an entry lies: its cabin page and its index there. -/
abbrev EntryAt := PageId × Nat

instance : LawfulBEq EntryAt := inferInstance

structure GroupHeader where
  key : List UInt8
  groupId : Nat
  count : Int := 0
  sum : Int := 0
  entries : List EntryAt := []
  deriving DecidableEq

def GroupHeader.aggregate (h : GroupHeader) : BoundAggregate → Int
  | .count => h.count
  | .sum => h.sum

/-- One assertion's Bound Cabin.  The source's constant members `aggregate_` and `bound_`
    are the declaration's, handed to `admitDelta`. -/
structure BoundCabin where
  groups : List GroupHeader := []
  nextGroupId : Nat := 1
  deriving DecidableEq

structure AdmissionResult where
  admitted : Bool
  wouldBe : Int
  deriving DecidableEq

/-- Rewrite the header filed under `key`. -/
def modifyGroup (key : List UInt8) (f : GroupHeader → GroupHeader) :
    List GroupHeader → List GroupHeader
  | [] => []
  | h :: rest => if h.key = key then f h :: rest else h :: modifyGroup key f rest

namespace BoundCabin

def find (c : BoundCabin) (key : List UInt8) : Option GroupHeader :=
  c.groups.find? fun h => h.key = key

def modify (c : BoundCabin) (key : List UInt8) (f : GroupHeader → GroupHeader) : BoundCabin :=
  { c with groups := modifyGroup key f c.groups }

/-- `EnsureGroup`: the one place a group is born, so the one place an id is assigned.  The next
    id is a 32-bit counter. -/
def ensureGroup (c : BoundCabin) (key : List UInt8) : BoundCabin :=
  match c.find key with
  | some _ => c
  | none =>
    { groups := c.groups ++ [{ key := key, groupId := c.nextGroupId }]
      nextGroupId := (c.nextGroupId + 1) % 2 ^ 32 }

/-- Would applying `delta` to `key`'s aggregate exceed the bound? -/
def admitDelta (c : BoundCabin) (agg : BoundAggregate) (bound : Int) (key : List UInt8)
    (delta : Int) :
    StatusOr AdmissionResult :=
  let current := ((c.find key).map fun h => h.aggregate agg).getD 0
  match checkedAdd current delta with
  | none => .error (.outOfRange ("bound cabin: aggregate overflow adding " ++ toString delta ++
      " to " ++ toString current))
  | some next => .ok { admitted := next ≤ bound, wouldBe := next }

def apply (c : BoundCabin) (key : List UInt8) (delta : Int) (loc : EntryAt) :
    StatusOr BoundCabin :=
  let c := c.ensureGroup key
  match c.find key with
  | none => .error (.notFound "bound cabin: no group")
  | some h =>
    match checkedAdd h.count 1 with
    | none => .error (.outOfRange "bound cabin: group cardinality overflow")
    | some count =>
      match checkedAdd h.sum delta with
      | none => .error (.outOfRange ("bound cabin: group sum overflow adding " ++
          toString delta ++ " to " ++ toString h.sum))
      | some sum => .ok (c.modify key fun h =>
        { h with count := count, sum := sum, entries := h.entries ++ [loc] })

/-- The shape `Unapply` and `UnapplyDeparture` share: find the entry, move both counters by
    one entry's worth, forget the entry. -/
def forget (c : BoundCabin) (key : List UInt8) (dCount dSum : Int) (loc : EntryAt)
    (noGroup noEntry overflow : String) : StatusOr BoundCabin :=
  match c.find key with
  | none => .error (.notFound noGroup)
  | some h =>
    if loc ∈ h.entries then
      match checkedAdd h.count dCount, checkedAdd h.sum dSum with
      | some count, some sum => .ok (c.modify key fun h =>
        { h with count := count, sum := sum, entries := h.entries.erase loc })
      | _, _ => .error (.outOfRange overflow)
    else .error (.notFound noEntry)

def unapply (c : BoundCabin) (key : List UInt8) (delta : Int) (loc : EntryAt) :
    StatusOr BoundCabin :=
  c.forget key (-1) (-delta) loc "bound cabin: no group to un-apply from"
    ("bound cabin: entry (" ++ toString loc.1 ++ ", " ++ toString loc.2 ++
      ") is not in this group")
    ("bound cabin: aggregate underflow un-applying " ++ toString delta)

def applyDeparture (c : BoundCabin) (key : List UInt8) (delta : Int) (loc : EntryAt) :
    StatusOr BoundCabin :=
  match c.find key with
  | none => .error (.notFound "bound cabin: no group for a departure to leave")
  | some h =>
    match checkedAdd h.count (-1), checkedAdd h.sum (-delta) with
    | some count, some sum => .ok (c.modify key fun h =>
      { h with count := count, sum := sum, entries := h.entries ++ [loc] })
    | _, _ => .error (.outOfRange ("bound cabin: aggregate underflow on a departure of " ++
        toString delta))

def unapplyDeparture (c : BoundCabin) (key : List UInt8) (delta : Int) (loc : EntryAt) :
    StatusOr BoundCabin :=
  c.forget key 1 delta loc "bound cabin: no group to restore a departure into"
    ("bound cabin: departure entry (" ++ toString loc.1 ++ ", " ++ toString loc.2 ++
      ") is not in this group")
    ("bound cabin: aggregate overflow restoring a departure of " ++ toString delta)

-- What each operation does to the counters and the entry lists

def countOf (c : BoundCabin) (key : List UInt8) : Int := ((c.find key).map (·.count)).getD 0
def sumOf (c : BoundCabin) (key : List UInt8) : Int := ((c.find key).map (·.sum)).getD 0
def entriesOf (c : BoundCabin) (key : List UInt8) : List EntryAt :=
  ((c.find key).map (·.entries)).getD []

/-- The aggregate an admission check compares against the bound; a missing group has 0. -/
def aggregateOf (c : BoundCabin) (agg : BoundAggregate) (key : List UInt8) : Int :=
  match agg with
  | .count => c.countOf key
  | .sum => c.sumOf key

/-- `c'` is `c` with `key`'s counters moved and every other group's counters unchanged. -/
structure Moved (c c' : BoundCabin) (key : List UInt8) (dCount dSum : Int) : Prop where
  count : ∀ k, c'.countOf k = c.countOf k + if k = key then dCount else 0
  sum : ∀ k, c'.sumOf k = c.sumOf k + if k = key then dSum else 0

theorem find_modify (c : BoundCabin) {f : GroupHeader → GroupHeader} (key k : List UInt8)
    (hf : ∀ h, (f h).key = h.key) :
    (c.modify key f).find k = if k = key then (c.find k).map f else c.find k := by
  unfold find modify
  dsimp only
  induction c.groups with
  | nil => simp [modifyGroup]
  | cons h rest ih =>
    by_cases hk : h.key = key
    · by_cases hkk : k = key
      · subst hkk
        simp [modifyGroup, hk, hf]
      · have hne : h.key ≠ k := fun heq => hkk (heq ▸ hk)
        have hne' : (f h).key ≠ k := (hf h).symm ▸ hne
        rw [modifyGroup, if_pos hk, if_neg hkk, List.find?_cons_of_neg (by simpa using hne'),
          List.find?_cons_of_neg (by simpa using hne)]
    · by_cases hkk : h.key = k
      · have hne : k ≠ key := fun heq => hk (hkk.trans heq)
        simp [modifyGroup, hkk, hne]
      · simp [modifyGroup, hk, hkk, ih]

theorem find_ensureGroup_ne (c : BoundCabin) {key k : List UInt8} (hk : k ≠ key) :
    (c.ensureGroup key).find k = c.find k := by
  unfold ensureGroup
  split
  · rfl
  · simp [find, List.find?_append, Ne.symm hk]

theorem find_ensureGroup_self (c : BoundCabin) (key : List UInt8) :
    (c.ensureGroup key).find key =
      some ((c.find key).getD { key := key, groupId := c.nextGroupId }) := by
  unfold ensureGroup
  split
  · next h heq => rw [heq]; rfl
  · next heq =>
    have hnone : c.groups.find? (fun h => decide (h.key = key)) = none := heq
    simp [find, List.find?_append, hnone]

theorem moved_ensureGroup (c : BoundCabin) (key : List UInt8) :
    Moved c (c.ensureGroup key) key 0 0 := by
  constructor <;> intro k <;> by_cases hk : k = key
  · subst hk
    simp only [countOf, find_ensureGroup_self]
    cases c.find k <;> simp
  · simp [countOf, find_ensureGroup_ne c hk]
  · subst hk
    simp only [sumOf, find_ensureGroup_self]
    cases c.find k <;> simp
  · simp [sumOf, find_ensureGroup_ne c hk]

theorem entriesOf_ensureGroup (c : BoundCabin) (key k : List UInt8) :
    (c.ensureGroup key).entriesOf k = c.entriesOf k := by
  by_cases hk : k = key
  · subst hk
    simp only [entriesOf, find_ensureGroup_self]
    cases c.find k <;> simp
  · simp [entriesOf, find_ensureGroup_ne c hk]

variable {c : BoundCabin} {key : List UInt8}

variable {dCount dSum : Int} {h : GroupHeader} {g : List EntryAt → List EntryAt}

theorem moved_modify (hfind : c.find key = some h) :
    Moved c (c.modify key fun h' =>
      { h' with count := h.count + dCount, sum := h.sum + dSum, entries := g h'.entries })
      key dCount dSum := by
  constructor <;> intro k <;> by_cases hk : k = key
  · subst hk
    simp [countOf, find_modify, hfind]
  · simp [countOf, find_modify, hk]
  · subst hk
    simp [sumOf, find_modify, hfind]
  · simp [sumOf, find_modify, hk]

theorem entriesOf_modify {n m : Int} (hfind : c.find key = some h) (k : List UInt8) :
    (c.modify key fun h' => { h' with count := n, sum := m, entries := g h'.entries }).entriesOf k =
      if k = key then g (c.entriesOf k) else c.entriesOf k := by
  by_cases hk : k = key
  · subst hk
    simp [entriesOf, find_modify, hfind]
  · simp [entriesOf, find_modify, hk]

theorem Moved.trans {c₁ c₂ c₃ : BoundCabin} {a b a' b' : Int}
    (h₁ : Moved c₁ c₂ key a b) (h₂ : Moved c₂ c₃ key a' b') :
    Moved c₁ c₃ key (a + a') (b + b') := by
  constructor
  · intro k
    rw [h₂.count, h₁.count]
    split <;> omega
  · intro k
    rw [h₂.sum, h₁.sum]
    split <;> omega

variable {delta : Int} {loc : EntryAt}

variable {c' : BoundCabin}

theorem apply_ok (h : c.apply key delta loc = .ok c') :
    Moved c c' key 1 delta ∧
      ∀ k, c'.entriesOf k = if k = key then c.entriesOf k ++ [loc] else c.entriesOf k := by
  unfold apply at h
  dsimp only at h
  rw [find_ensureGroup_self] at h
  dsimp only at h
  split at h
  · cases h
  · next count hcount =>
    split at h
    · cases h
    · next sum hsum =>
      obtain ⟨-, rfl⟩ := checkedAdd_eq_some.mp hcount
      obtain ⟨-, rfl⟩ := checkedAdd_eq_some.mp hsum
      cases h
      refine ⟨?_, ?_⟩
      · have : Moved c _ key (0 + 1) (0 + delta) := (moved_ensureGroup c key).trans
          (moved_modify (g := (· ++ [loc])) (find_ensureGroup_self c key))
        simpa using this
      · intro k
        rw [entriesOf_modify (g := (· ++ [loc])) (find_ensureGroup_self c key),
          entriesOf_ensureGroup]

theorem applyDeparture_ok (h : c.applyDeparture key delta loc = .ok c') :
    Moved c c' key (-1) (-delta) ∧
      ∀ k, c'.entriesOf k = if k = key then c.entriesOf k ++ [loc] else c.entriesOf k := by
  unfold applyDeparture at h
  split at h
  · cases h
  · next hd hfind =>
    split at h
    · next count sum hcount hsum =>
      obtain ⟨-, rfl⟩ := checkedAdd_eq_some.mp hcount
      obtain ⟨-, rfl⟩ := checkedAdd_eq_some.mp hsum
      cases h
      exact ⟨moved_modify (g := (· ++ [loc])) hfind,
        entriesOf_modify (g := (· ++ [loc])) hfind⟩
    · cases h

theorem mem_entriesOf
    (h : loc ∈ c.entriesOf key) : ∃ hd, c.find key = some hd ∧ loc ∈ hd.entries := by
  unfold entriesOf at h
  cases hfind : c.find key with
  | none => simp [hfind] at h
  | some hd => exact ⟨hd, rfl, by simpa [hfind] using h⟩

/-- `Unapply` and `UnapplyDeparture` succeed on an entry of the group whose removal keeps both
    counters in range, and then undo exactly that entry. -/
theorem forget_spec
    (e₁ e₂ e₃ : String) (hloc : loc ∈ c.entriesOf key) (hcount : InInt64 (c.countOf key + dCount))
    (hsum : InInt64 (c.sumOf key + dSum)) :
    ∃ c', c.forget key dCount dSum loc e₁ e₂ e₃ = .ok c' ∧ Moved c c' key dCount dSum ∧
      ∀ k, c'.entriesOf k = if k = key then (c.entriesOf k).erase loc else c.entriesOf k := by
  obtain ⟨hd, hfind, hmem⟩ := mem_entriesOf hloc
  have hc : checkedAdd hd.count dCount = some (hd.count + dCount) := by
    refine checkedAdd_eq_some.mpr ⟨?_, rfl⟩
    simpa [countOf, hfind] using hcount
  have hs : checkedAdd hd.sum dSum = some (hd.sum + dSum) := by
    refine checkedAdd_eq_some.mpr ⟨?_, rfl⟩
    simpa [sumOf, hfind] using hsum
  refine ⟨_, ?_, moved_modify (g := (·.erase loc)) hfind,
    entriesOf_modify (g := (·.erase loc)) hfind⟩
  simp [forget, hfind, hmem, hc, hs]

theorem admit_ok {agg : BoundAggregate} {bound : Int}
    {r : AdmissionResult} (h : c.admitDelta agg bound key delta = .ok r)
      (hadm : r.admitted = true) :
    c.aggregateOf agg key + delta ≤ bound := by
  have hcur : ((c.find key).map fun h => h.aggregate agg).getD 0 = c.aggregateOf agg key := by
    cases agg <;> rfl
  unfold admitDelta at h
  rw [hcur] at h
  dsimp only at h
  split at h
  · cases h
  · next next hnext =>
    obtain ⟨-, rfl⟩ := checkedAdd_eq_some.mp hnext
    cases h
    simpa using hadm

end BoundCabin
end Exec
end Kds
