/-
  Kds.Lib.Keyed

  Updates that each touch one key.  A state is a function from keys, an operation reads and
  writes the value at its own key and may refuse; a list of operations is run in order and stops
  at the first refusal.  `runAt_iff` takes such a run apart: it goes through exactly when, key by
  key, the operations on that key do, so what a run does can be argued one key at a time.

  `SetsOrKeeps` is the other half: an operation that, of some component, sets a fixed value or
  keeps what is there.  Such operations compose, and running the same ones again changes nothing.
-/

import Mathlib.Data.List.Basic
import Mathlib.Logic.Function.Basic

namespace Kds.Lib

-- Runs of keyed operations

section Keyed

variable {α κ V : Type} [DecidableEq κ] (key : α → κ) (op : α → V → Option V)

/-- One operation, at its key. -/
def stepAt (state : κ → V) (a : α) : Option (κ → V) :=
  (op a (state (key a))).map fun v => Function.update state (key a) v

/-- The operations of a list on one value, in order. -/
def runOn (as : List α) (v : V) : Option V :=
  as.foldlM (fun v a => op a v) v

/-- The operations of a list, in order. -/
def runAt (as : List α) (state : κ → V) : Option (κ → V) :=
  as.foldlM (stepAt key op) state

/-- The operations on one key. -/
def atKey (k : κ) (as : List α) : List α :=
  as.filter fun a => key a = k

variable {key op}

theorem runOn_cons (a : α) (as : List α) (v : V) :
    runOn op (a :: as) v = (op a v).bind (runOn op as) := rfl

theorem runOn_append (as bs : List α) (v : V) :
    runOn op (as ++ bs) v = (runOn op as v).bind (runOn op bs) := by
  rw [runOn, List.foldlM_append]
  rfl

theorem atKey_cons_self (a : α) (as : List α) :
    atKey key (key a) (a :: as) = a :: atKey key (key a) as :=
  List.filter_cons_of_pos (by simp)

theorem atKey_cons_of_ne {a : α} {k : κ} (h : key a ≠ k) (as : List α) :
    atKey key k (a :: as) = atKey key k as :=
  List.filter_cons_of_neg (by simpa using h)

theorem mem_atKey {k : κ} {a : α} {as : List α} : a ∈ atKey key k as ↔ a ∈ as ∧ key a = k := by
  rw [atKey, List.mem_filter, decide_eq_true_eq]

/-- **A keyed run is a run at each key.** -/
theorem runAt_iff {as : List α} {state final : κ → V} :
    runAt key op as state = some final ↔
      ∀ k, runOn op (atKey key k as) (state k) = some (final k) := by
  induction as generalizing state with
  | nil =>
    constructor
    · intro h k
      have heq : state = final := Option.some.inj h
      rw [heq]
      rfl
    · intro h
      have heq : state = final := funext fun k => Option.some.inj (h k)
      rw [heq]
      rfl
  | cons a rest ih =>
    have hcons : runAt key op (a :: rest) state =
        (stepAt key op state a).bind (runAt key op rest) := rfl
    rw [hcons, stepAt]
    cases hop : op a (state (key a)) with
    | none =>
      refine ⟨fun h => (by cases h), fun h => ?_⟩
      have hself := h (key a)
      rw [atKey_cons_self, runOn_cons, hop] at hself
      cases hself
    | some v =>
      show runAt key op rest (Function.update state (key a) v) = some final ↔ _
      rw [ih]
      refine forall_congr' fun k => ?_
      by_cases hk : key a = k
      · subst hk
        rw [Function.update_self, atKey_cons_self, runOn_cons, hop]
        rfl
      · rw [Function.update_of_ne (Ne.symm hk), atKey_cons_of_ne hk]

theorem exists_runAt {as : List α} {state : κ → V}
    (h : ∀ k, ∃ v, runOn op (atKey key k as) (state k) = some v) :
    ∃ final, runAt key op as state = some final := by
  choose final hfinal using h
  exact ⟨final, runAt_iff.mpr hfinal⟩

end Keyed

-- Operations that set or keep

section SetsOrKeeps

variable {σ V : Type} (proj : σ → V)

/-- Of the component `proj`, the operation keeps the value or sets a fixed one. -/
def SetsOrKeeps (f : σ → σ) : Prop :=
  (∀ x, proj (f x) = proj x) ∨ ∃ v, ∀ x, proj (f x) = v

variable {proj}

theorem SetsOrKeeps.comp {f g : σ → σ} (hg : SetsOrKeeps proj g) (hf : SetsOrKeeps proj f) :
    SetsOrKeeps proj (g ∘ f) := by
  rcases hg with hkeeps | ⟨v, hsets⟩
  · rcases hf with hkeeps' | ⟨v, hsets⟩
    · exact .inl fun x => (hkeeps (f x)).trans (hkeeps' x)
    · exact .inr ⟨v, fun x => (hkeeps (f x)).trans (hsets x)⟩
  · exact .inr ⟨v, fun x => hsets (f x)⟩

theorem SetsOrKeeps.foldl {α : Type} {f : σ → α → σ}
    (h : ∀ a, SetsOrKeeps proj fun x => f x a) (as : List α) :
    SetsOrKeeps proj fun x => as.foldl f x := by
  induction as with
  | nil => exact .inl fun _ => rfl
  | cons a rest ih => exact ih.comp (h a)

theorem SetsOrKeeps.idem {f : σ → σ} (h : SetsOrKeeps proj f) (x : σ) :
    proj (f (f x)) = proj (f x) := by
  rcases h with hkeeps | ⟨v, hsets⟩
  · exact hkeeps (f x)
  · rw [hsets (f x), hsets x]

end SetsOrKeeps

end Kds.Lib
