/-
  Kds.Lib.CachedDisk

  A device with a write cache: a write is on the platter when a sync has come after it, and until
  then a crash may keep it or lose it, each one by itself.

  What a crash leaves at a key is one of the values that `Survives` names: what was durable, or any
  value written since.
-/

import Mathlib.Logic.Function.Basic
import Mathlib.Data.List.Basic

namespace Kds.Lib

/-- Writes that no sync has followed are listed newest first. -/
structure CachedDisk (κ β : Type) where
  durable : κ → β
  unsynced : List (κ × β)

namespace CachedDisk

variable {κ β : Type} [DecidableEq κ] {disk : CachedDisk κ β} {k k' : κ} {v v' : β}

/-- What a read answers: the last write. -/
def latest (disk : CachedDisk κ β) (k : κ) : β :=
  ((disk.unsynced.find? fun w => w.1 = k).map Prod.snd).getD (disk.durable k)

def write (disk : CachedDisk κ β) (k : κ) (v : β) : CachedDisk κ β :=
  { disk with unsynced := (k, v) :: disk.unsynced }

def sync (disk : CachedDisk κ β) : CachedDisk κ β := ⟨disk.latest, []⟩

/-- What a crash may leave at a key. -/
def Survives (disk : CachedDisk κ β) (k : κ) (v : β) : Prop :=
  disk.durable k = v ∨ (k, v) ∈ disk.unsynced

theorem latest_write (disk : CachedDisk κ β) (k : κ) (v : β) (k' : κ) :
    (disk.write k v).latest k' = if k = k' then v else disk.latest k' := by
  unfold latest write
  by_cases h : k = k'
  · rw [if_pos h, List.find?_cons_of_pos (by simpa using h)]
    rfl
  · rw [if_neg h, List.find?_cons_of_neg (by simpa using h)]

omit [DecidableEq κ] in
theorem survives_write :
    (disk.write k v).Survives k' v' ↔ disk.Survives k' v' ∨ (k' = k ∧ v' = v) := by
  unfold Survives write
  rw [List.mem_cons, Prod.mk.injEq]
  constructor
  · rintro (h | h | h)
    · exact .inl (.inl h)
    · exact .inr h
    · exact .inl (.inr h)
  · rintro ((h | h) | h)
    · exact .inl h
    · exact .inr (.inr h)
    · exact .inr (.inl h)

theorem survives_sync : disk.sync.Survives k v ↔ disk.latest k = v := by
  unfold Survives sync
  exact or_iff_left List.not_mem_nil

theorem survives_latest (disk : CachedDisk κ β) (k : κ) : disk.Survives k (disk.latest k) := by
  rcases hfind : disk.unsynced.find? (fun w => decide (w.1 = k)) with _ | ⟨key, v⟩
  · have hlatest : disk.latest k = disk.durable k := by
      unfold latest
      rw [hfind]
      rfl
    exact .inl hlatest.symm
  · have hlatest : disk.latest k = v := by
      unfold latest
      rw [hfind]
      rfl
    have hkey := List.find?_some hfind
    have hin := List.mem_of_find?_eq_some hfind
    obtain rfl : key = k := of_decide_eq_true hkey
    rw [hlatest]
    exact .inr hin

end CachedDisk

end Kds.Lib
