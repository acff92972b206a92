/-
  Kds.Lib.SelfDelimiting

  Encodings that show where they end, so that encoded values can be written one after another and
  told apart.  Lists of values with one length then have one encoding exactly where they have it
  value by value (`Delimits.flatMap_iff`).
-/

import Mathlib.Data.List.Basic

namespace Kds.Lib

variable {α β γ : Type} {enc : α → List β} {R : α → α → Prop}

/-- Of two related values, neither's encoding begins the other's. -/
def Delimits (enc : α → List β) (R : α → α → Prop) : Prop :=
  ∀ a b x y, R a b → enc a ++ x = enc b ++ y → enc a = enc b

theorem delimits_of_length (h : ∀ a b x y, R a b → enc a ++ x = enc b ++ y →
    (enc a).length = (enc b).length) : Delimits enc R :=
  fun a b x y hab heq => (List.append_inj heq (h a b x y hab heq)).1

theorem Delimits.flatMap_iff (h : Delimits enc R) {places : List γ} {f g : γ → α}
    (hR : ∀ c ∈ places, R (f c) (g c)) :
    (places.map f).flatMap enc = (places.map g).flatMap enc ↔
      ∀ c ∈ places, enc (f c) = enc (g c) := by
  induction places with
  | nil => exact iff_of_true rfl fun c hc => absurd hc List.not_mem_nil
  | cons c places ih =>
    rw [List.map_cons, List.map_cons, List.flatMap_cons, List.flatMap_cons, List.forall_mem_cons]
    have hlater := ih fun p hp => hR p (List.mem_cons_of_mem _ hp)
    constructor
    · intro heq
      have hfirst := h _ _ _ _ (hR c List.mem_cons_self) heq
      rw [hfirst] at heq
      exact ⟨hfirst, hlater.mp (List.append_cancel_left heq)⟩
    · rintro ⟨hfirst, hrest⟩
      rw [hfirst, hlater.mpr hrest]

end Kds.Lib
