/-
  Kds.Lib.Run

  Runs of a partial step function.  A system is a function `step : σ → α → Option σ`
  that answers `none` when an action cannot be taken in a state.  `Reach step ok s s'`
  holds when some sequence of actions, each allowed by the side condition `ok` in the
  state it is taken in, leads from `s` to `s'`; it is the reflexive transitive closure
  of one allowed step, so Mathlib's lemmas about closures apply to it.

  The rule the developments use is `Reach.invariant`: a predicate that holds at the start
  and that every allowed step keeps holds in every state reached.
-/

import Mathlib.Logic.Relation

namespace Kds.Lib

variable {σ α : Type*} {step : σ → α → Option σ} {ok : σ → α → Prop}

/-- One step by some action that the side condition allows in this state. -/
def StepOn (step : σ → α → Option σ) (ok : σ → α → Prop) (s t : σ) : Prop :=
  ∃ a, ok s a ∧ step s a = some t

/-- A run whose every action meets `ok` leads from `s` to `t`. -/
def Reach (step : σ → α → Option σ) (ok : σ → α → Prop) : σ → σ → Prop :=
  Relation.ReflTransGen (StepOn step ok)

/-- The run that takes the actions of a list one after another. -/
def runList (step : σ → α → Option σ) : List α → σ → Option σ
  | [], s => some s
  | a :: as, s => (step s a).bind (runList step as)

/-- **The invariant rule.**  What holds at the start and is kept by every allowed step
    holds in every state reached. -/
theorem Reach.invariant {Inv : σ → Prop} {s t : σ} (hreach : Reach step ok s t) (hinit : Inv s)
    (hstep : ∀ {t u : σ} (a : α), Inv t → ok t a → step t a = some u → Inv u) : Inv t := by
  induction hreach with
  | refl => exact hinit
  | tail _ hlast ih =>
    obtain ⟨a, hok, hs⟩ := hlast
    exact hstep a ih hok hs

theorem Reach.mono {ok' : σ → α → Prop} {s t : σ} (hreach : Reach step ok s t)
    (himp : ∀ s a, ok s a → ok' s a) : Reach step ok' s t := by
  induction hreach with
  | refl => exact .refl
  | tail _ hlast ih =>
    obtain ⟨a, hok, hs⟩ := hlast
    exact Relation.ReflTransGen.tail ih ⟨a, himp _ a hok, hs⟩

/-- A step function that refuses the actions a decidable check does not pass. -/
def guardStep (guard : σ → α → Bool) (step : σ → α → Option σ) (s : σ) (a : α) : Option σ :=
  if guard s a then step s a else none

/-- Running a list of actions to its end, each passing a check that implies `ok`, gives a
    reachable state; `p` is what the end is found to satisfy. -/
theorem exists_reach_of_runList (guard : σ → α → Bool) (hguard : ∀ s a, guard s a = true → ok s a)
    (as : List α) (s : σ) (p : σ → Bool)
    (h : (runList (guardStep guard step) as s).any p = true) :
    ∃ t, Reach step ok s t ∧ p t = true := by
  induction as generalizing s with
  | nil => exact ⟨s, .refl, by simpa [runList] using h⟩
  | cons a as ih =>
    simp only [runList, guardStep] at h
    by_cases ha : guard s a = true
    · cases hs : step s a with
      | none => simp [ha, hs] at h
      | some u =>
        obtain ⟨t, hreach, hp⟩ := ih u (by simpa [ha, hs] using h)
        exact ⟨t, Relation.ReflTransGen.head ⟨a, hguard s a ha, hs⟩ hreach, hp⟩
    · simp [ha] at h

theorem reach_of_runList {as : List α} (hok : ∀ a ∈ as, ∀ s, ok s a) {s t : σ}
    (h : runList step as s = some t) : Reach step ok s t := by
  induction as generalizing s with
  | nil =>
    obtain rfl : s = t := Option.some.inj h
    exact .refl
  | cons a as ih =>
    obtain ⟨u, hu, hrest⟩ := Option.bind_eq_some_iff.mp h
    have hlater := ih (fun b hb => hok b (List.mem_cons_of_mem a hb)) hrest
    exact Relation.ReflTransGen.head ⟨a, hok a List.mem_cons_self s, hu⟩ hlater

end Kds.Lib
