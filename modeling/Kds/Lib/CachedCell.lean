/-
  Kds.Lib.CachedCell

  One cell of a write-back cache: what the cache holds of it, if anything, and what the backing
  store has.  A clean entry has what the backing has; a value that may be dropped from the cache is
  one the backing can give back.

  On its way out a value may be sealed, in the cache as in the backing.  A change is `Quiet` when no
  user asked for it: loading, marking, writing out, dropping a clean entry.  Quiet changes compose,
  and the last value stored survives any number of them, sealed at most.
-/

import Mathlib.Logic.Basic

namespace Kds.Lib

variable {β : Type}

/-- What a cache holds of a cell. -/
structure CacheEntry (β : Type) where
  value : β
  dirty : Bool

structure CachedCell (β : Type) where
  entry : Option (CacheEntry β)
  backing : β

namespace CachedCell

/-- What a read of the cell answers. -/
def value (c : CachedCell β) : β :=
  match c.entry with
  | some e => e.value
  | none => c.backing

/-- A clean entry has what the backing has. -/
def Coherent (c : CachedCell β) : Prop :=
  ∀ e, c.entry = some e → e.dirty = false → e.value = c.backing

/-- Unless the entry is dirty, the backing's value can be read back. -/
def Recoverable (intact : β → Prop) (c : CachedCell β) : Prop :=
  (∃ e, c.entry = some e ∧ e.dirty = true) ∨ intact c.backing

/-- A change that no user of the cell asked for. -/
structure Quiet (sealed : β → β) (intact : β → Prop) (c c' : CachedCell β) : Prop where
  coherent : c.Coherent → c'.Coherent
  value : c.Coherent → c'.value = c.value ∨ c'.value = sealed c.value
  recoverable : c.Coherent → c.Recoverable intact → c'.Recoverable intact

/-- The cell has what was stored last, sealed perhaps, and does not lose it. -/
structure Keeps (sealed : β → β) (intact : β → Prop) (c : CachedCell β) (last : β) : Prop where
  coherent : c.Coherent
  value : c.value = last ∨ c.value = sealed last
  recoverable : c.Recoverable intact

variable {sealed : β → β} {intact : β → Prop} {c c' c'' : CachedCell β} {e : CacheEntry β} {v : β}

-- Quiet changes

theorem Quiet.refl (c : CachedCell β) : Quiet sealed intact c c :=
  ⟨fun h => h, fun _ => .inl rfl, fun _ h => h⟩

theorem Quiet.trans (hseal : ∀ v, sealed (sealed v) = sealed v) (h : Quiet sealed intact c c')
    (h' : Quiet sealed intact c' c'') : Quiet sealed intact c c'' := by
  refine ⟨fun hc => h'.coherent (h.coherent hc), fun hc => ?_, fun hc hrec => ?_⟩
  · rcases h.value hc with hv | hv
    · rcases h'.value (h.coherent hc) with hv' | hv'
      · exact .inl (hv'.trans hv)
      · exact .inr (hv'.trans (congrArg sealed hv))
    · rcases h'.value (h.coherent hc) with hv' | hv'
      · exact .inr (hv'.trans hv)
      · refine .inr (hv'.trans ?_)
        rw [hv, hseal]
  · exact h'.recoverable (h.coherent hc) (h.recoverable hc hrec)

theorem Quiet.load (h : c.entry = none) (dirty : Bool) :
    Quiet sealed intact c ⟨some ⟨c.backing, dirty⟩, c.backing⟩ := by
  have hvalue : c.value = c.backing := by
    unfold CachedCell.value
    rw [h]
  refine ⟨fun _ e he _ => ?_, fun _ => .inl hvalue.symm, fun _ hrec => ?_⟩
  · cases he
    rfl
  · rcases hrec with ⟨e, he, -⟩ | hrec
    · rw [h] at he
      cases he
    · exact .inr hrec

theorem Quiet.mark (h : c.entry = some e) {dirty : Bool} (hdirty : e.dirty = true → dirty = true) :
    Quiet sealed intact c ⟨some ⟨e.value, dirty⟩, c.backing⟩ := by
  have hvalue : c.value = e.value := by
    unfold CachedCell.value
    rw [h]
  refine ⟨fun hc e' he' hclean => ?_, fun _ => .inl hvalue.symm, fun _ hrec => ?_⟩
  · cases he'
    apply hc e h
    apply Bool.eq_false_iff.mpr
    intro hd
    rw [hdirty hd] at hclean
    cases hclean
  · rcases hrec with ⟨e', he', hd⟩ | hrec
    · rw [h] at he'
      cases he'
      exact .inl ⟨_, rfl, hdirty hd⟩
    · exact .inr hrec

theorem Quiet.drop (h : c.entry = some e) (hclean : e.dirty = false) :
    Quiet sealed intact c ⟨none, c.backing⟩ := by
  have hvalue : c.value = e.value := by
    unfold CachedCell.value
    rw [h]
  refine ⟨fun _ e' he' => (by cases he'), fun hc => .inl ?_, fun _ hrec => ?_⟩
  · exact ((hc e h hclean).symm).trans hvalue.symm
  · rcases hrec with ⟨e', he', hd⟩ | hrec
    · rw [h] at he'
      cases he'
      rw [hclean] at hd
      cases hd
    · exact .inr hrec

theorem Quiet.writeOut (h : c.entry = some e) (hintact : intact (sealed e.value)) :
    Quiet sealed intact c ⟨some ⟨sealed e.value, false⟩, sealed e.value⟩ := by
  have hvalue : c.value = e.value := by
    unfold CachedCell.value
    rw [h]
  refine ⟨fun _ e' he' _ => ?_, fun _ => .inr ?_, fun _ _ => .inr hintact⟩
  · cases he'
    rfl
  · rw [hvalue]
    rfl

theorem Quiet.writeFailed (h : c.entry = some e) (b : β) :
    Quiet sealed intact c ⟨some ⟨sealed e.value, true⟩, b⟩ := by
  have hvalue : c.value = e.value := by
    unfold CachedCell.value
    rw [h]
  refine ⟨fun _ e' he' hclean => ?_, fun _ => .inr ?_, fun _ _ => .inl ⟨_, rfl, rfl⟩⟩
  · cases he'
    cases hclean
  · rw [hvalue]
    rfl

-- What was stored last

/-- **What was stored last survives every quiet change.** -/
theorem Keeps.quiet (hseal : ∀ v, sealed (sealed v) = sealed v) {last : β}
    (h : c.Keeps sealed intact last) (hquiet : Quiet sealed intact c c') :
    c'.Keeps sealed intact last := by
  refine ⟨hquiet.coherent h.coherent, ?_, hquiet.recoverable h.coherent h.recoverable⟩
  rcases hquiet.value h.coherent with hv | hv
  · rw [hv]
    exact h.value
  · rcases h.value with hlast | hlast
    · exact .inr (hv.trans (congrArg sealed hlast))
    · refine .inr (hv.trans ?_)
      rw [hlast, hseal]

theorem Keeps.store (v b : β) : Keeps sealed intact ⟨some ⟨v, true⟩, b⟩ v := by
  refine ⟨fun e he hclean => ?_, .inl rfl, .inl ⟨_, rfl, rfl⟩⟩
  cases he
  cases hclean

theorem Keeps.backing {last : β} (h : c.Keeps sealed intact last) (hnone : c.entry = none) :
    intact c.backing := by
  rcases h.recoverable with ⟨e, he, -⟩ | h
  · rw [hnone] at he
    cases he
  · exact h

end CachedCell

end Kds.Lib
